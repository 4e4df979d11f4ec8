import StructuredText.Grammar.Outline
import StructuredText.Tree.Sink

/-!
The events of a text: the grammar followed by a parser that notes events in place of writing an
outline. A node has a marker from where it is opened to where its kind is known.
-/

namespace StructuredText

namespace Event

/-- Sets the distance from the outermost of the nodes around the node at `i` to the node at
`target`. -/
def link (events : List Event) (i target : Nat) : List Event :=
  match _h : events[i]? with
  | some (.start _ (some distance)) =>
    if 0 < distance then link events (i + distance) target else events
  | some (.start kind none) => events.set i (.start kind (some (target - i)))
  | _ => events
  termination_by events.length - i
  decreasing_by
    have := (List.getElem?_eq_some_iff.mp _h).1
    omega

/-- Gives the node at a place its kind. -/
def complete (events : List Event) (i : Nat) (kind : NodeKind) : List Event :=
  match events[i]? with
  | some .placeholder => events.set i (.start kind none)
  | some (.start _ forward) => events.set i (.start kind forward)
  | _ => events

end Event

/-- What a rule works on when it notes events. -/
structure Recorder where
  ahead : Ahead
  events : List Event
  /-- How many events were noted before the current frame. -/
  base : Nat
  /-- The place of the marker of the frame. -/
  marker : Nat

namespace Recorder

def start (symbols : Ahead) : Recorder :=
  ⟨symbols, [], 0, 0⟩

def consume (m : Recorder) (n : Nat) : Recorder :=
  { m with
    ahead := m.ahead.drop n
    events := m.events ++ (m.ahead.take n).map fun x => .token x.kind }

/-- Opens a node: around the first node of the frame and all that is around it, if there is one. -/
def mark (m : Recorder) : Recorder :=
  let place := m.events.length
  let events := m.events ++ [.placeholder]
  { m with
    events := if m.base < place then Event.link events m.base place else events
    marker := place }

/-- Gives the node of the marker its kind, and ends it. -/
def enclose (m : Recorder) (kind : NodeKind) : Recorder :=
  { m with events := Event.complete m.events m.marker kind ++ [.finish] }

/-- Lets a step work in a frame of its own. -/
def inFrame (step : Recorder → Recorder) (m : Recorder) : Recorder :=
  { step { m with base := m.events.length } with base := m.base, marker := m.marker }

def iterate (test : Ahead → Bool) (step : Recorder → Recorder) : Nat → Recorder → Recorder
  | 0, m => m
  | n + 1, m => if test m.ahead then iterate test step n (step m) else m

end Recorder

/-- Follows a rule as `Rule.run` does, and notes events. Reports leave no event. -/
def Rule.record (deeper : Entry → Recorder → Recorder) : Rule → Recorder → Recorder
  | .skip, m => m
  | .seq first second, m => second.record deeper (first.record deeper m)
  | .look choice, m => (choice m.ahead).record deeper m
  | .consume count, m => m.consume (count m.ahead)
  | .repeatWhile test body, m => m.iterate test (body.record deeper) m.ahead.length
  | .frame body, m => m.inFrame (body.record deeper)
  | .mark, m => m.mark
  | .enclose kind, m => m.enclose kind
  | .report _, m => m
  | .reportUnlessBlamed _, m => m
  | .require _ _ body, m => m.inFrame (body.record deeper)
  | .enter entry, m => deeper entry m

/-- Follows an entry with a number of levels left. -/
def Entry.record : Nat → Entry → Recorder → Recorder
  | 0, entry, m => entry.skipped.record (fun _ m => m) m
  | levels + 1, entry, m => entry.rule.record (record levels) m

namespace Grammar

/-- The events of a whole text, with its root. -/
def events (symbols : Ahead) : List Event :=
  ((Rule.node .sourceFile sourceFile).record (Entry.record nestingLimit)
    (Recorder.start symbols)).events

end Grammar

end StructuredText
