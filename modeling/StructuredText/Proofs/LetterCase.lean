import Mathlib.Data.List.Forall2
import StructuredText.Proofs.Dependence
import StructuredText.Proofs.Token.LetterCase
import StructuredText.Report.Tree

/-!
Letter case makes no difference to a text, but for its names: one may be the name of a conversion, and
these have capitals only. Texts that differ in letter case alone have the same tokens at the same places,
and if their names are the same, then so are their trees and what is reported about them.
-/

namespace StructuredText

/-! ### Trees over tokens in small letters -/

namespace Forest

variable {α β : Type}

@[simp] theorem map_ofLeaves (g : α → β) (as : List α) :
    (ofLeaves as).map g = ofLeaves (as.map g) := by
  induction as with
  | nil => rfl
  | cons a as ih => simp [ofLeaves, ih]

theorem size_lowered (f : Forest Token) : (f.map Token.lowered).size = f.size := by
  induction f with
  | nil => rfl
  | leaf t rest ih => simp [size, ih]
  | node kind children rest ihc ih => simp [size, ihc, ih]

end Forest

namespace Outline

/-- The tokens of a tree in small letters are put into their places as before. -/
theorem weave_lowered (outline : Outline) (tokens : List Token) :
    outline.weave (tokens.map Token.lowered) =
      ((outline.weave tokens).1.map Token.lowered, (outline.weave tokens).2.map Token.lowered) := by
  have hbefore (ts : List Token) : (ts.map Token.lowered).takeWhile Token.isTrivia =
      (ts.takeWhile Token.isTrivia).map Token.lowered := List.takeWhile_map ..
  have hbehind (ts : List Token) : (ts.map Token.lowered).dropWhile Token.isTrivia =
      (ts.dropWhile Token.isTrivia).map Token.lowered := List.dropWhile_map ..
  induction outline generalizing tokens with
  | nil => rfl
  | leaf kind rest ih =>
      simp only [weave, hbefore, hbehind]
      cases tokens.dropWhile Token.isTrivia with
      | nil =>
          obtain ⟨hinside, hleft⟩ := Prod.ext_iff.mp (ih [])
          simp only [List.map_nil, Forest.map_append, Forest.map_ofLeaves]
          exact Prod.ext (congrArg (_ ++ ·) hinside) hleft
      | cons t ts => simp [ih, Token.lowered]
  | node kind children rest ihc ih =>
      simp only [weave, hbefore, hbehind]
      cases children.isBare <;> simp [ihc, ih]

theorem fill_lowered (outline : Outline) (tokens : List Token) :
    outline.fill (tokens.map Token.lowered) = (outline.fill tokens).map Token.lowered := by
  simp [fill, weave_lowered]

end Outline

namespace Row

/-- A row without the text of its token. -/
def withoutText (r : Row) : Row :=
  { r with text := none }

theorem ofForest_lowered (depth start : Nat) (f : Forest Token) :
    (ofForest depth start (f.map Token.lowered)).map withoutText =
      (ofForest depth start f).map withoutText := by
  induction f generalizing depth start with
  | nil => rfl
  | leaf t rest ih => simp [ofForest, ofToken, withoutText, ih]
  | node kind children rest ihc ih => simp [ofForest, Forest.size_lowered, ihc, ih]

end Row

/-! ### Texts in different letter case -/

namespace Parse

variable {a b : List Char}

theorem lowered_lex (h : a.map Char.toLower = b.map Char.toLower) :
    (Token.lex a).map Token.lowered = (Token.lex b).map Token.lowered := by
  rw [Token.lex, Token.lex, ← Token.lexFrom_map_toLower, h, Token.lexFrom_map_toLower]

/-- The grammar sees the same of tokens of the same kinds with the same names. -/
theorem map_ofToken_significant {ts us : List Token} (hkinds : ts.map Token.kind = us.map Token.kind)
    (hnames : List.Forall₂ (fun t u => t.kind = .ident → t.chars = u.chars) ts us) :
    (significant ts).map Symbol.ofToken = (significant us).map Symbol.ofToken := by
  induction hnames with
  | nil => rfl
  | @cons t u ts us hname _ ih =>
      obtain ⟨hkind, hkinds⟩ := List.cons.inj hkinds
      have htrivia : t.isTrivia = u.isTrivia := congrArg TokenKind.isTrivia hkind
      have hsymbol : Symbol.ofToken t = Symbol.ofToken u :=
        ofToken_eq hkind fun hident => by rw [hname hident]
      simp only [significant, List.filter_cons, htrivia] at ih ⊢
      split
      · rw [List.map_cons, List.map_cons, hsymbol, ih hkinds]
      · exact ih hkinds

theorem significant_lowered (tokens : List Token) :
    significant (tokens.map Token.lowered) = (significant tokens).map Token.lowered :=
  List.filter_map ..

/-- What is reported depends on no letter case either. -/
theorem diagnose_lowered (tokens : List Token) (size : Nat) (faults : List Fault) :
    diagnose (tokens.map Token.lowered) size faults = diagnose tokens size faults := by
  have herror (t : Token) : Diagnostic.ofErrorToken t.lowered = Diagnostic.ofErrorToken t := by
    have hmessage : Token.errorMessage t.lowered.chars = Token.errorMessage t.chars :=
      Token.caseless_errorMessage t.chars
    simp [Diagnostic.ofErrorToken, hmessage]
  have herrors : ((tokens.map Token.lowered).filter fun t => t.kind = .error).map
      Diagnostic.ofErrorToken = (tokens.filter fun t => t.kind = .error).map Diagnostic.ofErrorToken := by
    rw [List.filter_map, List.map_map]
    exact List.map_congr_left fun t _ => herror t
  have hfault (fault : Fault) :
      Diagnostic.ofFault (significant (tokens.map Token.lowered)) size fault =
        Diagnostic.ofFault (significant tokens) size fault := by
    have hstart (t : Token) : t.lowered.start = t.start := congrArg Span.start (Token.span_lowered t)
    have hstop (t : Token) : t.lowered.stop = t.stop := congrArg Span.stop (Token.span_lowered t)
    simp only [Diagnostic.ofFault, significant_lowered, List.getElem?_map, Option.elim_map,
      Function.comp_def, hstart, hstop]
  rw [diagnose, diagnose, herrors, funext hfault]

/-- Texts that differ in the case of letters only have the same tokens: of the same kinds and in the same
places. If moreover the names of the one are spelled as those of the other, then they have the same tree,
of which all nodes and tokens have the same kinds and the same places, and the same reports, each with
the same message and in the same place. -/
theorem letterCase_irrelevant (h : a.map Char.toLower = b.map Char.toLower) :
    ((Token.lex a).map fun t => (t.kind, t.span)) = ((Token.lex b).map fun t => (t.kind, t.span)) ∧
    (List.Forall₂ (fun t u => t.kind = .ident → t.chars = u.chars) (Token.lex a) (Token.lex b) →
      (ofText a).rows.map Row.withoutText = (ofText b).rows.map Row.withoutText ∧
      (ofText a).diagnostics = (ofText b).diagnostics) := by
  have hlex := lowered_lex h
  have htokens {α : Type} {g : Token → α} (hg : ∀ t, g t.lowered = g t) :
      (Token.lex a).map g = (Token.lex b).map g := by
    have hmap (ts : List Token) : (ts.map Token.lowered).map g = ts.map g := by
      rw [List.map_map, Function.comp_def]
      simp only [hg]
    rw [← hmap, hlex, hmap]
  refine ⟨htokens fun t => by simp, fun hnames => ?_⟩
  have hsymbols : symbols a = symbols b :=
    map_ofToken_significant (htokens Token.kind_lowered) hnames
  have hparse : Grammar.parse (symbols a) = Grammar.parse (symbols b) := by rw [hsymbols]
  constructor
  · have hchildren : (ofText a).children.map Token.lowered = (ofText b).children.map Token.lowered := by
      rw [children_ofText, children_ofText, ← Outline.fill_lowered, ← Outline.fill_lowered, hlex, outline,
        outline, hparse]
    have hrows (source : List Char) : (ofText source).rows.map Row.withoutText =
        (Row.ofForest 0 0 (.node .sourceFile ((ofText source).children.map Token.lowered) .nil)).map
          Row.withoutText := (Row.ofForest_lowered 0 0 _).symm
    rw [hrows, hrows, hchildren]
  · have hsize : byteLength a = byteLength b := by
      rw [← byteLength_map_toLower, h, byteLength_map_toLower]
    rw [diagnostics_ofText, diagnostics_ofText, ← diagnose_lowered, hlex, diagnose_lowered, hsize, hparse]

/-- Keywords, numbers, a time literal and an error in both cases, and a name that is a conversion. -/
theorem letterCase_irrelevant_respelled :
    let a := "IF x = 16#fF THEN y := REAL_TO_INT(1e5l) + t#1H2m t#1x (* A".toList
    let b := "if x = 16#Ff Then y := REAL_TO_INT(1E5L) + T#1h2M T#1X (* a".toList
    ((Token.lex a).map fun t => (t.kind, t.span)) = ((Token.lex b).map fun t => (t.kind, t.span)) ∧
    (ofText a).rows.map Row.withoutText = (ofText b).rows.map Row.withoutText ∧
    (ofText a).diagnostics = (ofText b).diagnostics := by
  intro a b
  obtain ⟨htokens, htree⟩ := letterCase_irrelevant (a := a) (b := b) (by decide +kernel)
  exact ⟨htokens, htree (by decide +kernel)⟩

end Parse

end StructuredText
