import StructuredText.Grammar.Rule

/-!
A property of all steps that a rule is made of, by which a fact about following the rule is seen from the
rule alone. A frame may have the property as a whole; then it is not looked into.
-/

namespace StructuredText.Rule

/-- The property holds of every step of the rule. -/
def Throughout (Q : Rule → Prop) : Rule → Prop
  | .skip => Q .skip
  | .seq first second => first.Throughout Q ∧ second.Throughout Q
  | .look choice => ∀ a, (choice a).Throughout Q
  | .consume count => Q (.consume count)
  | .repeatWhile _ body => body.Throughout Q
  | .frame body => Q (.frame body) ∨ body.Throughout Q
  | .mark => Q .mark
  | .enclose kind => Q (.enclose kind)
  | .report problem => Q (.report problem)
  | .reportUnlessBlamed problem => Q (.reportUnlessBlamed problem)
  | .require inOrder problem body => Q (.require inOrder problem body)
  | .enter entry => Q (.enter entry)

section Steps

variable {Q : Rule → Prop}

@[simp] theorem throughout_skip : Rule.skip.Throughout Q ↔ Q .skip := Iff.rfl

@[simp] theorem throughout_consume (count : Ahead → Nat) :
    (Rule.consume count).Throughout Q ↔ Q (.consume count) := Iff.rfl

@[simp] theorem throughout_mark : Rule.mark.Throughout Q ↔ Q .mark := Iff.rfl

@[simp] theorem throughout_enclose (kind : NodeKind) :
    (Rule.enclose kind).Throughout Q ↔ Q (.enclose kind) := Iff.rfl

@[simp] theorem throughout_report (problem : Problem) :
    (Rule.report problem).Throughout Q ↔ Q (.report problem) := Iff.rfl

@[simp] theorem throughout_reportUnlessBlamed (problem : Problem) :
    (Rule.reportUnlessBlamed problem).Throughout Q ↔ Q (.reportUnlessBlamed problem) := Iff.rfl

@[simp] theorem throughout_require (inOrder : Outline → Bool) (problem : Problem) (r : Rule) :
    (Rule.require inOrder problem r).Throughout Q ↔ Q (.require inOrder problem r) := Iff.rfl

@[simp] theorem throughout_enter (entry : Entry) :
    (Rule.enter entry).Throughout Q ↔ Q (.enter entry) := Iff.rfl

end Steps

/-! ### Rules made of others -/

variable {Q : Rule → Prop} {r r' yes no : Rule} {k : TokenKind} {test : Ahead → Bool}

@[simp] theorem throughout_seq :
    (Rule.seq r r').Throughout Q ↔ r.Throughout Q ∧ r'.Throughout Q := Iff.rfl

@[simp] theorem throughout_repeatWhile :
    (Rule.repeatWhile test r).Throughout Q ↔ r.Throughout Q := Iff.rfl

@[simp] theorem throughout_frame :
    (Rule.frame r).Throughout Q ↔ Q (.frame r) ∨ r.Throughout Q := Iff.rfl

@[simp] theorem throughout_all_nil : (all []).Throughout Q ↔ Q .skip := Iff.rfl

@[simp] theorem throughout_all_cons {rs : List Rule} :
    (all (r :: r' :: rs)).Throughout Q ↔ r.Throughout Q ∧ (all (r' :: rs)).Throughout Q := Iff.rfl

@[simp] theorem throughout_all_singleton : (all [r]).Throughout Q ↔ r.Throughout Q := Iff.rfl

@[simp] theorem throughout_advance : advance.Throughout Q ↔ Q (.consume fun _ => 1) := Iff.rfl

@[simp] theorem throughout_node {kind : NodeKind} :
    (node kind r).Throughout Q ↔
      Q (node kind r) ∨ Q .mark ∧ r.Throughout Q ∧ Q (.enclose kind) := Iff.rfl

@[simp] theorem throughout_choose (h : yes.Throughout Q) (h' : no.Throughout Q) :
    (choose test yes no).Throughout Q := by
  intro a
  dsimp only
  split
  · exact h
  · exact h'

@[simp] theorem throughout_whenAt (h : r.Throughout Q) (hskip : Q .skip) :
    (whenAt k r).Throughout Q :=
  throughout_choose h hskip

@[simp] theorem throughout_accept (hadvance : Q (.consume fun _ => 1)) (hskip : Q .skip) :
    (accept k).Throughout Q :=
  throughout_whenAt hadvance hskip

@[simp] theorem throughout_expect (hadvance : Q (.consume fun _ => 1))
    (hreport : Q (.report (.missing k))) : (expect k).Throughout Q :=
  throughout_choose hadvance hreport

end StructuredText.Rule
