import StructuredText.Proofs.Documents
import StructuredText.Proofs.Tree.SExpression

/-!
The forms in which a tree is printed. From the lines of the listing and from the document, rows are read that
are the same, and they are those of the tree; without trivia, each form is the one with trivia less the
tokens that are trivia. The S-expression has the nodes alone, and all of them.
-/

namespace StructuredText

namespace Row

/-- A row has a text exactly if it is that of a token. -/
inductive IsSound : Row → Prop
  | token (depth : Nat) (kind : TokenKind) (span : Span) (cs : List Char) :
      IsSound ⟨depth, .token kind, span, some cs⟩
  | node (depth : Nat) (kind : NodeKind) (span : Span) : IsSound ⟨depth, .node kind, span, none⟩

theorem isSound_of_mem_ofForest {depth start : Nat} {f : Forest Token} :
    ∀ r ∈ ofForest depth start f, IsSound r := by
  induction f generalizing depth start with
  | nil => exact nofun
  | leaf t rest ih => exact List.forall_mem_cons.mpr ⟨.token .., ih⟩
  | node kind children rest ihc ih =>
      exact List.forall_mem_cons.mpr ⟨.node .., List.forall_mem_append.mpr ⟨ihc, ih⟩⟩

/-- The kind that a name stands for, in a row that has a text or has none. -/
def kind? (name : List Char) : (text : Option (List Char)) → Option ElementKind
  | some _ => (TokenKind.ofName? (String.ofList name)).map .token
  | none => (NodeKind.ofName? (String.ofList name)).map .node

theorem IsSound.kind?_eq {r : Row} (h : r.IsSound) : kind? r.kind.name.toList r.text = some r.kind := by
  cases h with
  | token depth kind span cs =>
      rw [kind?, String.ofList_toList]
      exact congrArg (Option.map _) kind.ofName?_name
  | node depth kind span =>
      rw [kind?, String.ofList_toList]
      exact congrArg (Option.map _) kind.ofName?_name

/-! ### Lines -/

/-- A span at the front of a text. -/
def readSpan? (cs : List Char) : Option (Span × List Char) := do
  let (start, rest) ← Decimal.read? cs
  match rest with
  | '.' :: '.' :: rest =>
    let (stop, rest) ← Decimal.read? rest
    return (⟨start, stop⟩, rest)
  | _ => none

/-- The text behind a span, if there is one. -/
def readText? : List Char → Option (Option (List Char))
  | [] => some none
  | ' ' :: quoted => do
    let (cs, rest) ← Quoted.unquote? quoted
    if rest = [] then some (some cs) else none
  | _ => none

/-- The row that a line shows. -/
def ofLine? (line : List Char) : Option Row := do
  let blanks := line.takeWhile (· = ' ')
  let rest := line.dropWhile (· = ' ')
  let (span, behind) ← readSpan? ((rest.dropWhile (· ≠ '@')).drop 1)
  let text ← readText? behind
  let kind ← kind? (rest.takeWhile (· ≠ '@')) text
  return ⟨blanks.length / 2, kind, span, text⟩

/-- The rows that the lines of a listing show. Behind the end of the last line there is nothing. -/
def ofListing? (listing : String) : Option (List Row) :=
  ((lines listing).filter (· ≠ [])).mapM ofLine?

theorem name_plain (k : ElementKind) : ∀ c ∈ k.name.toList, c ≠ ' ' ∧ c ≠ '@' := by
  have hall : k.name.toList.all fun c => c ≠ ' ' && c ≠ '@' := by
    cases k with
    | token kind => cases kind <;> decide +kernel
    | node kind => cases kind <;> decide +kernel
  simpa using hall

theorem readSpan?_render (s : Span) {rest : List Char} (h : Decimal.Ends rest) :
    readSpan? (s.render.toList ++ rest) = some (s, rest) := by
  have hpoint (cs : List Char) : Decimal.Ends ('.' :: cs) := .cons rfl cs
  have htext : s.render.toList ++ rest =
      Nat.toDigits 10 s.start ++ '.' :: '.' :: (Nat.toDigits 10 s.stop ++ rest) := by
    simp [Span.toList_render]
  rw [htext, readSpan?, Decimal.read?_toDigits _ (hpoint _)]
  simp only [Option.bind_eq_bind, Option.bind_some, Decimal.read?_toDigits _ h]
  rfl

theorem readText?_elim (text : Option (List Char)) :
    readText? (text.elim [] fun cs => ' ' :: Quoted.quote cs) = some text := by
  cases text with
  | none => rfl
  | some cs =>
      have hread := Quoted.unquote?_quote cs []
      rw [List.append_nil] at hread
      rw [Option.elim_some, readText?, hread]
      rfl

theorem takeWhile_blanks (k : Nat) {c : Char} (hc : c ≠ ' ') (rest : List Char) :
    (List.replicate k ' ' ++ c :: rest).takeWhile (· = ' ') = List.replicate k ' ' := by
  have hblank : ∀ b ∈ List.replicate k ' ', decide (b = ' ') := by
    intro b hb
    simpa using List.eq_of_mem_replicate hb
  rw [List.takeWhile_append_of_pos hblank, List.takeWhile_cons_of_neg (by simpa using hc), List.append_nil]

/-- A name goes up to the sign behind it. -/
theorem cut_name (k : ElementKind) (rest : List Char) :
    (k.name.toList ++ '@' :: rest).takeWhile (· ≠ '@') = k.name.toList ∧
    (k.name.toList ++ '@' :: rest).dropWhile (· ≠ '@') = '@' :: rest := by
  have hname : ∀ c ∈ k.name.toList, decide (c ≠ '@') := by
    intro c hc
    simpa using (name_plain k c hc).2
  constructor
  · rw [List.takeWhile_append_of_pos hname, List.takeWhile_cons_of_neg (by simp), List.append_nil]
  · rw [List.dropWhile_append_of_pos hname, List.dropWhile_cons_of_neg (by simp)]

theorem exists_cons_name (k : ElementKind) (rest : List Char) :
    ∃ c cs, k.name.toList ++ '@' :: rest = c :: cs ∧ c ≠ ' ' := by
  cases hname : k.name.toList with
  | nil => exact ⟨'@', rest, rfl, by simp⟩
  | cons c cs => exact ⟨c, _, rfl, (name_plain k c (hname ▸ List.mem_cons_self)).1⟩

/-- A line shows the row that it was made from. -/
theorem ofLine?_render {r : Row} (h : r.IsSound) : ofLine? r.render.toList = some r := by
  let text := r.text.elim [] fun cs => ' ' :: Quoted.quote cs
  let behind := r.span.render.toList ++ text
  have hline : r.render.toList =
      List.replicate (2 * r.depth) ' ' ++ (r.kind.name.toList ++ '@' :: behind) := by
    rw [toList_render, lead]
    simp [behind, text]
  have hspan : readSpan? behind = some (r.span, text) := by
    apply readSpan?_render
    simp only [text]
    cases r.text with
    | none => exact .nil
    | some cs => exact .cons rfl _
  have hdepth : (List.replicate (2 * r.depth) ' ').length / 2 = r.depth := by simp
  obtain ⟨c, cs, hcons, hc⟩ := exists_cons_name r.kind behind
  obtain ⟨hname, hsign⟩ := cut_name r.kind behind
  rw [ofLine?, hline, hcons, takeWhile_blanks _ hc, Json.dropWhile_blanks _ hc, ← hcons, hname, hsign,
    List.drop_one, List.tail_cons, hspan]
  simp only [text, Option.bind_eq_bind, Option.bind_some, readText?_elim, h.kind?_eq, hdepth]
  rfl

theorem lines_listing (rows : List Row) :
    lines (unlines (rows.map render)) = rows.map (fun r => r.render.toList) ++ [[]] := by
  rw [lines_unlines, List.map_map]
  · rfl
  · intro row hrow hbreak
    obtain ⟨r, -, rfl⟩ := List.mem_map.mp hrow
    exact not_isLineBreak_of_mem_render hbreak (.inl rfl)

theorem mapM_ofLine? {rows : List Row} (h : ∀ r ∈ rows, r.IsSound) :
    (rows.map fun r => r.render.toList).mapM ofLine? = some rows := by
  induction rows with
  | nil => rfl
  | cons r rows ih =>
      obtain ⟨hr, hrows⟩ := List.forall_mem_cons.mp h
      rw [List.map_cons, List.mapM_cons, ofLine?_render hr, ih hrows]
      rfl

theorem ofListing?_listing {rows : List Row} (h : ∀ r ∈ rows, r.IsSound) :
    ofListing? (unlines (rows.map render)) = some rows := by
  have hfull : ∀ line ∈ rows.map fun r => r.render.toList, decide (line ≠ []) := by
    intro line hline
    obtain ⟨r, hr, rfl⟩ := List.mem_map.mp hline
    have hread := ofLine?_render (h r hr)
    refine decide_eq_true fun hempty => ?_
    rw [hempty] at hread
    cases hread
  rw [ofListing?, lines_listing, List.filter_append, List.filter_eq_self.mpr hfull]
  simpa using mapM_ofLine? h

/-- Without trivia, a listing has the lines that do not show any. -/
theorem lines_listing_shown {rows : List Row} (h : ∀ r ∈ rows, r.IsSound) :
    lines (unlines ((shown false rows).map render)) =
      (lines (unlines (rows.map render))).filter fun line => !(ofLine? line).any isTrivia := by
  rw [lines_listing, lines_listing, List.filter_append, List.filter_map]
  have hshown : shown false rows = rows.filter
      ((fun line => !(ofLine? line).any isTrivia) ∘ fun r => r.render.toList) := by
    refine List.filter_congr fun r hr => ?_
    rw [Function.comp_apply, ofLine?_render (h r hr)]
    rfl
  rw [hshown]
  rfl

end Row

/-! ### Documents -/

namespace Json

/-- The value of a number. -/
def number? : Json → Option Nat
  | .number n => some n
  | _ => none

/-- Whether this is an element of the kind of trivia. -/
def isTrivia : Json → Bool
  | .object fields => ((fields.lookup "kind").bind string?).any fun name =>
    (TokenKind.ofName? (String.ofList name)).any TokenKind.isTrivia
  | _ => false

def isEmptyArray : Json → Bool
  | .array [] => true
  | _ => false

mutual

/-- The document without the elements that are trivia. Where no children are left, the field with them
is left out. -/
def withoutTrivia : Json → Json
  | .number n => .number n
  | .string cs => .string cs
  | .array items => .array (itemsWithoutTrivia items)
  | .object fields => .object (fieldsWithoutTrivia fields)

def itemsWithoutTrivia : List Json → List Json
  | [] => []
  | item :: items =>
    if item.isTrivia then itemsWithoutTrivia items
    else item.withoutTrivia :: itemsWithoutTrivia items

def fieldsWithoutTrivia : List (String × Json) → List (String × Json)
  | [] => []
  | (name, value) :: fields =>
    if name = "children" && value.withoutTrivia.isEmptyArray then fieldsWithoutTrivia fields
    else (name, value.withoutTrivia) :: fieldsWithoutTrivia fields

end

end Json

namespace Row

/-- The row of an element, of which the fields are given. -/
def ofFields? (depth : Nat) (fields : List (String × Json)) : Option Row := do
  let name ← (fields.lookup "kind").bind Json.string?
  let start ← (fields.lookup "start").bind Json.number?
  let stop ← (fields.lookup "end").bind Json.number?
  let text := (fields.lookup "text").bind Json.string?
  let kind ← kind? name text
  return ⟨depth, kind, ⟨start, stop⟩, text⟩

mutual

/-- The rows of an element at a depth: its own, and those of its children. -/
def ofElement? (depth : Nat) : Json → Option (List Row)
  | .object fields => do
    let row ← ofFields? depth fields
    let below ← ofChildren? (depth + 1) fields
    return row :: below
  | _ => none

/-- The rows of the children among some fields. -/
def ofChildren? (depth : Nat) : List (String × Json) → Option (List Row)
  | [] => some []
  | (name, .array items) :: fields =>
    if name = "children" then ofElements? depth items else ofChildren? depth fields
  | _ :: fields => ofChildren? depth fields

def ofElements? (depth : Nat) : List Json → Option (List Row)
  | [] => some []
  | item :: items => do
    let rows ← ofElement? depth item
    let others ← ofElements? depth items
    return rows ++ others

end

/-- The rows of the tree in a document. -/
def ofDocument? (output : String) : Option (List Row) := do
  match ← Json.ofText? output.toList with
  | .object fields => ofElement? 0 (← fields.lookup "tree")
  | _ => none

end Row

namespace Report

/-- What a document says about an element is read as its row and those of its children. -/
theorem ofElement?_elementJson {r : Row} (h : r.IsSound) (children : List Json) :
    Row.ofElement? r.depth (elementJson r.kind r.span r.text children) =
      (Row.ofElements? (r.depth + 1) children).map (r :: ·) := by
  obtain ⟨fields, hfields, hown, hchildren⟩ : ∃ fields,
      elementJson r.kind r.span r.text children = .object fields ∧
      Row.ofFields? r.depth fields = some r ∧
      Row.ofChildren? (r.depth + 1) fields = Row.ofElements? (r.depth + 1) children := by
    have hkind := h.kind?_eq
    obtain ⟨depth, kind, span, text⟩ := r
    refine ⟨_, rfl, ?_, ?_⟩
    · cases text <;> cases children <;>
        simp [Row.ofFields?, List.lookup_cons, Json.string?, Json.number?, hkind]
    · have hnone : Row.ofElements? (depth + 1) [] = some [] := rfl
      cases text <;> cases children <;> simp [Row.ofChildren?, hnone]
  rw [hfields, Row.ofElement?, hown, hchildren]
  cases Row.ofElements? (r.depth + 1) children <;> rfl

theorem shown_cons (trivia : Bool) (r : Row) (rows : List Row) :
    Row.shown trivia (r :: rows) =
      if trivia || !r.isTrivia then r :: Row.shown trivia rows else Row.shown trivia rows := by
  rw [Row.shown, List.filter_cons]
  rfl

theorem shown_ofForest_node (trivia : Bool) (depth start : Nat) (kind : NodeKind)
    (children rest : Forest Token) :
    Row.shown trivia (Row.ofForest depth start (.node kind children rest)) =
      ⟨depth, .node kind, ⟨start, start + children.size⟩, none⟩ ::
        (Row.shown trivia (Row.ofForest (depth + 1) start children) ++
          Row.shown trivia (Row.ofForest depth (start + children.size) rest)) := by
  rw [Row.ofForest, shown_cons, if_pos (by simp [Row.isTrivia, ElementKind.isTrivia]), Row.shown,
    List.filter_append]
  rfl

/-- The elements of a document are the rows that a listing shows. -/
theorem ofElements?_forestJson (trivia : Bool) (depth start : Nat) (f : Forest Token) :
    Row.ofElements? depth (forestJson trivia start f) =
      some (Row.shown trivia (Row.ofForest depth start f)) := by
  induction f generalizing depth start with
  | nil => rfl
  | leaf t rest ih =>
      have hrow : Row.ofElement? depth (elementJson (.token t.kind) t.span (some t.chars) []) =
          some [Row.ofToken depth t] :=
        ofElement?_elementJson (Row.IsSound.token depth t.kind t.span t.chars) []
      have htrivia : (Row.ofToken depth t).isTrivia = t.isTrivia := rfl
      rw [forestJson, Row.ofForest, shown_cons, htrivia]
      cases trivia || !t.isTrivia with
      | false => exact ih depth _
      | true =>
          rw [if_pos rfl, if_pos rfl, Row.ofElements?, hrow, ih]
          rfl
  | node kind children rest ihc ih =>
      let row : Row := ⟨depth, .node kind, ⟨start, start + children.size⟩, none⟩
      have hrow := ofElement?_elementJson (r := row) (.node ..) (forestJson trivia start children)
      rw [ihc] at hrow
      rw [shown_ofForest_node, forestJson, Row.ofElements?, hrow, ih]
      rfl

/-! ### Without trivia -/

theorem isTrivia_elementJson (kind : ElementKind) (span : Span) (text : Option (List Char))
    (children : List Json) :
    (elementJson kind span text children).isTrivia =
      (TokenKind.ofName? kind.name).any TokenKind.isTrivia := by
  simp [elementJson, Json.isTrivia, Json.string?]

theorem isTrivia_elementJson_token (kind : TokenKind) (span : Span) (text : Option (List Char))
    (children : List Json) :
    (elementJson (.token kind) span text children).isTrivia = kind.isTrivia := by
  rw [isTrivia_elementJson, ElementKind.name, kind.ofName?_name, Option.any_some]

theorem isTrivia_elementJson_node (kind : NodeKind) (span : Span) (text : Option (List Char))
    (children : List Json) : (elementJson (.node kind) span text children).isTrivia = false := by
  rw [isTrivia_elementJson, ElementKind.name, kind.isTrivia_ofName?_name]

theorem fieldsWithoutTrivia_append (fields others : List (String × Json)) :
    Json.fieldsWithoutTrivia (fields ++ others) =
      Json.fieldsWithoutTrivia fields ++ Json.fieldsWithoutTrivia others := by
  induction fields with
  | nil => rfl
  | cons field fields ih =>
      obtain ⟨name, value⟩ := field
      rw [List.cons_append, Json.fieldsWithoutTrivia, Json.fieldsWithoutTrivia, ih]
      split <;> rfl

/-- A field with children is left out if none of them is left. -/
theorem fieldsWithoutTrivia_children (children : List Json) :
    Json.fieldsWithoutTrivia (if children.isEmpty then [] else [("children", .array children)]) =
      if (Json.itemsWithoutTrivia children).isEmpty then []
      else [("children", .array (Json.itemsWithoutTrivia children))] := by
  cases children with
  | nil => rfl
  | cons child children =>
      rw [List.isEmpty_cons, if_neg Bool.false_ne_true, Json.fieldsWithoutTrivia, Json.withoutTrivia]
      cases Json.itemsWithoutTrivia (child :: children) <;> rfl

theorem withoutTrivia_elementJson (kind : ElementKind) (span : Span) (text : Option (List Char))
    (children : List Json) :
    (elementJson kind span text children).withoutTrivia =
      elementJson kind span text (Json.itemsWithoutTrivia children) := by
  rw [elementJson, Json.withoutTrivia, fieldsWithoutTrivia_append, fieldsWithoutTrivia_append,
    fieldsWithoutTrivia_children]
  cases text <;> simp [elementJson, Json.fieldsWithoutTrivia, Json.withoutTrivia]

theorem itemsWithoutTrivia_forestJson (start : Nat) (f : Forest Token) :
    Json.itemsWithoutTrivia (forestJson true start f) = forestJson false start f := by
  induction f generalizing start with
  | nil => rfl
  | leaf t rest ih =>
      have htrivia : t.isTrivia = t.kind.isTrivia := rfl
      simp only [forestJson, Bool.true_or, if_true, Bool.false_or]
      rw [Json.itemsWithoutTrivia, isTrivia_elementJson_token, withoutTrivia_elementJson, ih, htrivia]
      cases t.kind.isTrivia <;> rfl
  | node kind children rest ihc ih =>
      simp only [forestJson]
      rw [Json.itemsWithoutTrivia, isTrivia_elementJson_node, withoutTrivia_elementJson, ihc, ih]
      rfl

theorem itemsWithoutTrivia_errors (input : Input) (ds : List Diagnostic) :
    Json.itemsWithoutTrivia (ds.map (errorJson input)) = ds.map (errorJson input) := by
  have htrivia (d : Diagnostic) : (errorJson input d).isTrivia = false := by
    have hlexical : (TokenKind.ofName? "lexical").any TokenKind.isTrivia = false := by decide +kernel
    have hsyntax : (TokenKind.ofName? "syntax").any TokenKind.isTrivia = false := by decide +kernel
    cases hkind : d.kind
    · simpa [errorJson, hkind, Json.isTrivia, List.lookup_cons, Json.string?] using hlexical
    · simpa [errorJson, hkind, Json.isTrivia, List.lookup_cons, Json.string?] using hsyntax
  have hsame (d : Diagnostic) : (errorJson input d).withoutTrivia = errorJson input d := by
    simp [errorJson, Json.withoutTrivia, Json.fieldsWithoutTrivia]
  induction ds with
  | nil => rfl
  | cons d ds ih =>
      rw [List.map_cons, Json.itemsWithoutTrivia, htrivia, hsame, ih]
      rfl

/-- Without trivia, a document is the full one less the elements that are trivia. -/
theorem document_withoutTrivia (input : Input) (p : Parse) :
    document input p false = (document input p true).withoutTrivia := by
  rw [document, document, treeJson, treeJson]
  simp [Json.withoutTrivia, Json.fieldsWithoutTrivia, withoutTrivia_elementJson,
    itemsWithoutTrivia_forestJson, itemsWithoutTrivia_errors]

/-! ### All forms -/

theorem isSound_of_mem_shown {p : Parse} {trivia : Bool} :
    ∀ r ∈ Row.shown trivia p.rows, r.IsSound :=
  fun r hr => Row.isSound_of_mem_ofForest r (List.mem_of_mem_filter hr)

theorem ofDocument?_renderTree (input : Input) (p : Parse) (trivia : Bool) :
    Row.ofDocument? (renderTree input p .json trivia) = some (Row.shown trivia p.rows) := by
  let root : Row := ⟨0, .node .sourceFile, ⟨0, p.children.size⟩, none⟩
  have htree : Row.ofElement? 0 (treeJson p trivia) = some (Row.shown trivia p.rows) := by
    have hroot := ofElement?_elementJson (r := root) (.node ..) (forestJson trivia 0 p.children)
    have hbehind : Row.shown trivia (Row.ofForest 0 (0 + p.children.size) .nil) = [] := rfl
    rw [ofElements?_forestJson] at hroot
    rw [Parse.rows, shown_ofForest_node, hbehind, List.append_nil, Nat.zero_add]
    exact hroot
  rw [Row.ofDocument?, renderTree, Json.ofText?_render]
  simpa [document, List.lookup_cons] using htree

/-- The forms of a tree agree. From the lines of the listing, and from the document, the same rows are
read: those of the tree, without the trivia if it is not wanted. So without trivia, the listing has the lines
that do not show any, and the document is the full one less the elements that are trivia. The
S-expression is one node, closed where it ends, that has the name of the root and below it the nodes of the
tree and nothing else; its words are the names of the nodes, and none is unknown. Two trees have the same
S-expression exactly if their nodes are the same. -/
theorem renderings_agree (input : Input) (p : Parse) :
    (∀ trivia,
      Row.ofListing? (renderTree input p .tree trivia) = some (Row.shown trivia p.rows) ∧
      Row.ofDocument? (renderTree input p .json trivia) = some (Row.shown trivia p.rows)) ∧
    lines (renderTree input p .tree false) =
      ((lines (renderTree input p .tree true)).filter fun line =>
        !(Row.ofLine? line).any Row.isTrivia) ∧
    (∃ full, Json.ofText? (renderTree input p .json true).toList = some full ∧
      renderTree input p .json false = full.withoutTrivia.render ++ "\n") ∧
    (∀ trivia, renderTree input p .sexp trivia = p.sexp ++ "\n") ∧
    SExpression.depth? 0 p.sexp.toList = some 0 ∧
    SExpression.ofText? p.sexp.toList = some (.sourceFile, p.children.withoutLeaves) ∧
    ((SExpression.words p.sexp.toList).map fun word => some (String.ofList word)) =
      (.sourceFile :: p.children.nodes.map Prod.fst).map (fun kind => (ElementKind.node kind).symbol?) ∧
    "unknown".toList ∉ SExpression.words p.sexp.toList ∧
    ∀ q : Parse, p.sexp = q.sexp ↔ p.children.withoutLeaves = q.children.withoutLeaves := by
  have hsexp : p.sexp.toList = SExpression.ofNode .sourceFile p.children := String.toList_ofList
  have hrows (trivia : Bool) :
      Row.ofListing? (renderTree input p .tree trivia) = some (Row.shown trivia p.rows) :=
    Row.ofListing?_listing isSound_of_mem_shown
  refine ⟨fun trivia => ⟨hrows trivia, ofDocument?_renderTree input p trivia⟩, ?_, ?_, fun _ => rfl, ?_, ?_,
    ?_, ?_, fun q => ?_⟩
  · rw [renderTree_listing]
    exact Row.lines_listing_shown Row.isSound_of_mem_ofForest
  · exact ⟨document input p true, Json.ofText?_render _, by rw [renderTree, document_withoutTrivia]⟩
  · rw [hsexp, SExpression.depth?_ofNode]
  · rw [hsexp, SExpression.ofText?_ofNode]
  · rw [hsexp, SExpression.words_ofNode]
    simp [ElementKind.symbol?, String.ofList_toList]
  · have hunknown (k : NodeKind) : k.symbol.toList ≠ "unknown".toList := by
      rw [Ne, String.toList_inj]
      cases k <;> simp [NodeKind.symbol]
    rw [hsexp, SExpression.words_ofNode, List.mem_cons, List.mem_map]
    rintro (h | ⟨node, -, h⟩)
    · exact hunknown _ h.symm
    · exact hunknown _ h
  · rw [Parse.sexp, Parse.sexp, String.ofList_inj, SExpression.ofNode_inj]
    simp

end Report

end StructuredText
