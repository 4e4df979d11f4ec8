import StructuredText.Tree.Weave

/-!
Trees from streams of events. A parser that only ever appends cannot know, when a node begins, that
it will turn out to be the first part of another one. So it notes events: where nodes start and
finish, and which tokens they have; and a node that is put around one that is already there starts
later in the stream, and the earlier node tells how much later. The sink reads the events in their
order, together with the tokens of the text, and makes the tree.
-/

namespace StructuredText

inductive Event where
  /-- A node starts. With a distance, the node that starts so much later in the stream is around this
  one, and starts here too. -/
  | start (kind : NodeKind) (forward : Option Nat)
  /-- The next token that is no trivia, under a kind. -/
  | token (kind : TokenKind)
  /-- The innermost open node ends. -/
  | finish
  /-- The place of a node that has no kind yet, or that was already started. -/
  | placeholder
  deriving DecidableEq, Repr

namespace Event

def isStart : Event → Bool
  | .start _ _ => true
  | _ => false

/-- Whether a node ends before its first token. The number counts the nodes that are open in it. -/
def endsBare : Nat → List Event → Bool
  | _, [] => true
  | depth, .start _ _ :: events => endsBare (depth + 1) events
  | _, .token _ :: _ => false
  | 0, .finish :: _ => true
  | depth + 1, .finish :: events => endsBare depth events
  | depth, .placeholder :: events => endsBare depth events

/-- Follows the distances from a start to the nodes around it, and takes these starts out of the
stream. Gives back the kinds after those that were given, each around the one before it. There is
none if a distance leads out of the stream. -/
def unchain (events : List Event) (i : Nat) (forward : Option Nat) (kinds : List NodeKind) :
    Option (List NodeKind × List Event) :=
  match forward with
  | none => some (kinds, events)
  | some distance =>
    match _h : events[i + distance]? with
    | none => none
    | some (.start kind forward) =>
      unchain (events.set (i + distance) .placeholder) (i + distance) forward (kinds ++ [kind])
    | some _ => some (kinds, events.set (i + distance) .placeholder)
  termination_by events.countP isStart
  decreasing_by
    obtain ⟨hi, hstart⟩ := List.getElem?_eq_some_iff.mp _h
    have hpos : 0 < events.countP isStart :=
      List.countP_pos_iff.mpr ⟨_, List.getElem_mem hi, by rw [hstart]; rfl⟩
    rw [List.countP_set hi, hstart]
    simp only [isStart, if_true, Bool.false_eq_true, if_false]
    omega

end Event

/-- A tree that is being made. -/
structure Sink where
  events : List Event
  /-- The tokens that have no place yet. -/
  tokens : List Token
  /-- The nodes that are open, the innermost first, each with what is already in it. -/
  opened : List (NodeKind × Forest Token)
  /-- What is in no open node. -/
  finished : Forest Token

namespace Sink

def start (events : List Event) (tokens : List Token) : Sink :=
  ⟨events, tokens, [], .nil⟩

def depth (s : Sink) : Nat :=
  s.opened.length

/-- Puts trees into the innermost open node. -/
def add (s : Sink) (trees : Forest Token) : Sink :=
  match s.opened with
  | [] => { s with finished := s.finished ++ trees }
  | (kind, row) :: outer => { s with opened := (kind, row ++ trees) :: outer }

def addTrivia (s : Sink) : Sink :=
  { s.add (.ofLeaves (s.tokens.takeWhile Token.isTrivia)) with
    tokens := s.tokens.dropWhile Token.isTrivia }

def addRemaining (s : Sink) : Sink :=
  { s.add (.ofLeaves s.tokens) with tokens := [] }

/-- Adds the next token under a kind. -/
def addToken (s : Sink) (kind : TokenKind) : Sink :=
  match s.tokens with
  | [] => s
  | token :: tokens => { s.add (.leaf { token with kind } .nil) with tokens }

/-- Opens nodes, each in the one after it. -/
def openNodes (s : Sink) (kinds : List NodeKind) : Sink :=
  { s with opened := kinds.map (fun kind => (kind, .nil)) ++ s.opened }

/-- Ends the innermost open node, if there is one. -/
def closeNode (s : Sink) : Option Sink :=
  match s.opened with
  | [] => none
  | (kind, row) :: outer => some ({ s with opened := outer }.add (.node kind row .nil))

/-- Reads the event at a place, which is taken out of the stream. There is no next state if there is
no such event, if a distance leads out of the stream, or if a node ends and none is open. -/
def step (s : Sink) (i : Nat) : Option Sink :=
  let taken := { s with events := s.events.set i .placeholder }
  match s.events[i]? with
  | none => none
  | some (.start kind forward) =>
    (Event.unchain taken.events i forward [kind]).map fun (kinds, events) =>
      let taken := { s with events }
      -- A node without tokens does not take trivia to the node around it.
      let bare := kinds.length = 1 && Event.endsBare 0 (events.drop (i + 1))
      (if s.depth = 0 || bare then taken else taken.addTrivia).openNodes kinds
  | some (.token kind) => some (taken.addTrivia.addToken kind)
  | some .finish => (if s.depth = 1 then taken.addRemaining else taken).closeNode
  | some .placeholder => some taken

/-- Reads the first events of the stream. -/
def steps (s : Sink) : Nat → Option Sink
  | 0 => some s
  | n + 1 => (s.steps n).bind fun s => s.step n

/-- The kind and the children of the one tree that is left, if all nodes are closed and it is a
node. -/
def root? (s : Sink) : Option (NodeKind × Forest Token) :=
  match s.opened, s.finished with
  | [], .node kind children .nil => some (kind, children)
  | _, _ => none

/-- The tree of a stream over the tokens of a text. -/
def build (events : List Event) (tokens : List Token) : Option (NodeKind × Forest Token) :=
  ((start events tokens).steps events.length).bind root?

end Sink

end StructuredText
