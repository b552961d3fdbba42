import FilterQuery.Proofs.Formula.Filter

/-!
# Markup shows the text

The markup of a filter is its text with tags around the parts.  It is taken apart into tags and the
characters between them; no character is an angle bracket, since the text is escaped, and the tags
are nested.  Without the tags, and with the entities undone, it is the plain preview.

Main results:

- `Text.unescapeMarkup_escapeMarkup`: a text is what is left when its escapes are undone.
- `Markup.scan_eq_some_iff`: markup is scanned to the tags and characters that it is made of.
- `Style.marksUp_write`: the markup of a formula marks up its text.
- `Filter.markup_shows_text`: so does the markup of a filter.
-/

namespace FilterQuery

/-! ## Undoing escapes -/

namespace Text

/-- Puts the characters that mean something in markup in the place of their entities. -/
def unescapeMarkup : List Char → List Char
  | '&' :: 'a' :: 'm' :: 'p' :: ';' :: rest => '&' :: unescapeMarkup rest
  | '&' :: 'l' :: 't' :: ';' :: rest => '<' :: unescapeMarkup rest
  | '&' :: 'g' :: 't' :: ';' :: rest => '>' :: unescapeMarkup rest
  | '&' :: 'q' :: 'u' :: 'o' :: 't' :: ';' :: rest => '"' :: unescapeMarkup rest
  | '&' :: '#' :: 'x' :: '2' :: '7' :: ';' :: rest => '\'' :: unescapeMarkup rest
  | c :: rest => c :: unescapeMarkup rest
  | [] => []

/-- A character that begins no entity stays as it is. -/
theorem unescapeMarkup_cons {c : Char} (h : c ≠ '&') (rest : List Char) :
    unescapeMarkup (c :: rest) = c :: unescapeMarkup rest := by
  rw [unescapeMarkup] <;> simp_all

/-- The escape of a character is undone, whatever follows. -/
theorem unescapeMarkup_escapeMarkupChar_append (c : Char) (rest : List Char) :
    unescapeMarkup (escapeMarkupChar c ++ rest) = c :: unescapeMarkup rest := by
  unfold escapeMarkupChar
  split
  case h_6 hamp _ _ _ _ => exact unescapeMarkup_cons hamp rest
  all_goals rfl

/-- A text is what is left when its escapes are undone. -/
theorem unescapeMarkup_escapeMarkup (s : String) :
    unescapeMarkup (escapeMarkup s).toList = s.toList := by
  rw [escapeMarkup, String.toList_ofList]
  induction s.toList with
  | nil => rfl
  | cons c rest ih => rw [List.flatMap_cons, unescapeMarkup_escapeMarkupChar_append, ih]

end Text

/-! ## Tags and characters -/

namespace Markup

/-- The parts of a preview that stand in tags. -/
inductive Part where
  | condition
  | negation
  | relation
  | group
deriving DecidableEq, Repr

/-- What the class of a part is called. -/
def Part.kind : Part → String
  | condition => "field"
  | negation => "not"
  | relation => "operator"
  | group => "group"

/-- The tags of previews. -/
inductive Tag where
  | opening (part : Part)
  | closing
deriving DecidableEq, Repr

namespace Tag

/-- What stands between the angle brackets of a tag. -/
def inner : Tag → List Char
  | opening part => ("span class=\"preview-" ++ part.kind ++ "\"").toList
  | closing => "/span".toList

/-- All tags. -/
def all : List Tag :=
  [opening .condition, opening .negation, opening .relation, opening .group, closing]

/-- The tag with this between its angle brackets, if there is one. -/
def ofInner? (chars : List Char) : Option Tag :=
  all.find? fun tag => tag.inner = chars

/-- A tag is found by what stands between its angle brackets. -/
theorem ofInner?_inner (tag : Tag) : ofInner? tag.inner = some tag := by
  cases tag with
  | opening part => cases part <;> decide +kernel
  | closing => decide +kernel

/-- What was found is a tag with this between its angle brackets. -/
theorem inner_of_ofInner? {chars : List Char} {tag : Tag} (h : ofInner? chars = some tag) :
    tag.inner = chars := by
  simpa using List.find?_some h

/-- No angle bracket stands inside of a tag. -/
theorem angle_not_mem_inner (tag : Tag) : '<' ∉ tag.inner ∧ '>' ∉ tag.inner := by
  cases tag with
  | opening part => cases part <;> decide +kernel
  | closing => decide +kernel

end Tag

/-- What markup is made of. -/
inductive Token where
  | tag (tag : Tag)
  | char (c : Char)
deriving DecidableEq, Repr

namespace Token

/-- The characters of a tag, or the character itself. -/
def chars : Token → List Char
  | tag t => '<' :: (t.inner ++ ['>'])
  | char c => [c]

/-- Whether a token holds no angle brackets but those of a tag. -/
def IsProper : Token → Prop
  | tag _ => True
  | char c => c ≠ '<' ∧ c ≠ '>'

/-- The character that is left of a token without tags. -/
def char? : Token → Option Char
  | tag _ => none
  | char c => some c

end Token

/-- The markup of some tokens. -/
def write (tokens : List Token) : List Char :=
  tokens.flatMap Token.chars

/-- What is left of some tokens without the tags. -/
def withoutTags (tokens : List Token) : List Char :=
  tokens.filterMap Token.char?

/-- Tokens are written one after the other. -/
theorem write_append (first second : List Token) :
    write (first ++ second) = write first ++ write second :=
  List.flatMap_append

/-- What is left of tokens without the tags is left of them one after the other. -/
theorem withoutTags_append (first second : List Token) :
    withoutTags (first ++ second) = withoutTags first ++ withoutTags second :=
  List.filterMap_append

/-! ## Scanning markup -/

/-- The tokens of markup, after the beginning of a tag if there is one.  There are none if an angle
bracket stands outside of tags, or around something that is no tag. -/
def scanFrom : Option (List Char) → List Char → Option (List Token)
  | none, [] => some []
  | some _, [] => none
  | none, c :: rest =>
      if c = '<' then scanFrom (some []) rest
      else if c = '>' then none
      else (scanFrom none rest).map (.char c :: ·)
  | some begun, c :: rest =>
      if c = '<' then none
      else if c = '>' then
        (Tag.ofInner? begun).bind fun tag => (scanFrom none rest).map (.tag tag :: ·)
      else scanFrom (some (begun ++ [c])) rest

/-- The tokens of markup. -/
def scan (markup : String) : Option (List Token) :=
  scanFrom none markup.toList

/-- Inside of a tag everything up to the next angle bracket is taken. -/
theorem scanFrom_append {chars : List Char} (hchars : '<' ∉ chars ∧ '>' ∉ chars)
    (begun rest : List Char) :
    scanFrom (some begun) (chars ++ rest) = scanFrom (some (begun ++ chars)) rest := by
  induction chars generalizing begun with
  | nil => simp
  | cons c more ih =>
      simp only [List.mem_cons, not_or] at hchars
      rw [List.cons_append, scanFrom, if_neg (Ne.symm hchars.1.1), if_neg (Ne.symm hchars.2.1),
        ih ⟨hchars.1.2, hchars.2.2⟩, List.append_assoc, List.singleton_append]

/-- Proper tokens are scanned from their markup. -/
theorem scanFrom_write {tokens : List Token} (h : ∀ token ∈ tokens, token.IsProper) :
    scanFrom none (write tokens) = some tokens := by
  induction tokens with
  | nil => rfl
  | cons token rest ih =>
      rw [List.forall_mem_cons] at h
      have hrest := ih h.2
      cases token with
      | char c =>
          change scanFrom none (c :: write rest) = _
          rw [scanFrom, if_neg h.1.1, if_neg h.1.2, hrest, Option.map_some]
      | tag t =>
          have hwrite : write (.tag t :: rest) = '<' :: (t.inner ++ '>' :: write rest) := by
            simp [write, Token.chars]
          rw [hwrite, scanFrom, if_pos rfl, scanFrom_append t.angle_not_mem_inner, List.nil_append,
            scanFrom, if_neg (by decide), if_pos rfl, t.ofInner?_inner, hrest]
          rfl

/-- What was scanned is the markup, with the beginning of the tag. -/
theorem write_of_scanFrom {begun : Option (List Char)} {chars : List Char} {tokens : List Token}
    (h : scanFrom begun chars = some tokens) :
    write tokens = begun.elim [] ('<' :: ·) ++ chars ∧ ∀ token ∈ tokens, token.IsProper := by
  -- By induction on the characters, whether or not a tag was begun before them.
  induction chars generalizing begun tokens with
  | nil =>
      cases begun with
      | none =>
          rcases Option.some.inj h with rfl
          exact ⟨rfl, List.forall_mem_nil _⟩
      | some begun => contradiction
  | cons c rest ih =>
      cases begun with
      | none =>
          rw [scanFrom] at h
          split at h
          · next hopens =>
              rcases ih h with ⟨hwrite, hproper⟩
              exact ⟨by simpa [hopens] using hwrite, hproper⟩
          · next hopens =>
              split at h
              · contradiction
              · next hcloses =>
                  rcases Option.map_eq_some_iff.mp h with ⟨others, hothers, rfl⟩
                  rcases ih hothers with ⟨hwrite, hproper⟩
                  refine ⟨congrArg (c :: ·) hwrite, ?_⟩
                  exact List.forall_mem_cons.mpr ⟨⟨hopens, hcloses⟩, hproper⟩
      | some begun =>
          rw [scanFrom] at h
          split at h
          · contradiction
          · split at h
            · next hcloses =>
                rcases Option.bind_eq_some_iff.mp h with ⟨tag, htag, h⟩
                rcases Option.map_eq_some_iff.mp h with ⟨others, hothers, rfl⟩
                rcases ih hothers with ⟨hwrite, hproper⟩
                have hinner := Tag.inner_of_ofInner? htag
                refine ⟨?_, List.forall_mem_cons.mpr ⟨trivial, hproper⟩⟩
                rw [write, List.flatMap_cons, ← write, hwrite]
                simp [Token.chars, hinner, hcloses]
            · rcases ih h with ⟨hwrite, hproper⟩
              exact ⟨by simpa using hwrite, hproper⟩

/-- Markup is scanned to the tags and characters that it is made of, if all of its angle brackets
belong to tags. -/
theorem scan_eq_some_iff {markup : String} {tokens : List Token} :
    scan markup = some tokens ↔
      write tokens = markup.toList ∧ ∀ token ∈ tokens, token.IsProper := by
  constructor
  · exact write_of_scanFrom
  · rintro ⟨hwrite, hproper⟩
    rw [scan, ← hwrite, scanFrom_write hproper]

/-! ## Nested tags -/

/-- Tokens in which every tag that is opened is closed, one inside of the other. -/
inductive Nested : List Token → Prop
  | nil : Nested []
  | char (c : Char) : Nested [.char c]
  | append {first second : List Token} (hfirst : Nested first) (hsecond : Nested second) :
      Nested (first ++ second)
  | span (part : Part) {inside : List Token} (hinside : Nested inside) :
      Nested (.tag (.opening part) :: (inside ++ [.tag .closing]))

/-- Characters alone are nested. -/
theorem nested_map_char (chars : List Char) : Nested (chars.map .char) := by
  induction chars with
  | nil => exact .nil
  | cons c rest ih => exact .append (.char c) ih

/-! ## Texts that are marked up -/

/-- Whether markup is made of a text by escaping it and putting tags around its parts. -/
def MarksUp (text markup : String) : Prop :=
  ∃ tokens, write tokens = markup.toList ∧ (∀ token ∈ tokens, token.IsProper) ∧ Nested tokens ∧
    withoutTags tokens = (Text.escapeMarkup text).toList

namespace MarksUp

variable {text markup other marked : String}

/-- An escaped text is marked up, without tags. -/
theorem escape (text : String) : MarksUp text (Text.escapeMarkup text) := by
  have hplain : ∀ c ∈ (Text.escapeMarkup text).toList, (Token.char c).IsProper := by
    intro c hc
    rw [Text.escapeMarkup, String.toList_ofList] at hc
    rcases List.mem_flatMap.mp hc with ⟨source, _, hc⟩
    rcases Text.escapeMarkupChar_no_angle source with ⟨hopens, hcloses⟩
    exact ⟨fun h => hopens (h ▸ hc), fun h => hcloses (h ▸ hc)⟩
  refine ⟨(Text.escapeMarkup text).toList.map .char, ?_, List.forall_mem_map.mpr hplain,
    nested_map_char _, ?_⟩
  · simp [write, List.flatMap_map, Token.chars]
  · simp [withoutTags, List.filterMap_map, Token.char?, Function.comp_def]

/-- A text without special characters stands for itself. -/
theorem of_escape_eq (h : Text.escapeMarkup text = text) : MarksUp text text := by
  simpa [h] using escape text

/-- A space stands for itself. -/
theorem space : MarksUp " " " " :=
  of_escape_eq (by decide +kernel)

/-- Markup of one text followed by that of another marks up both. -/
theorem append (h : MarksUp text markup) (hother : MarksUp other marked) :
    MarksUp (text ++ other) (markup ++ marked) := by
  rcases h with ⟨tokens, hwrite, hproper, hnested, htext⟩
  rcases hother with ⟨others, hwrite', hproper', hnested', htext'⟩
  refine ⟨tokens ++ others, ?_, List.forall_mem_append.mpr ⟨hproper, hproper'⟩,
    .append hnested hnested', ?_⟩
  · rw [write_append, hwrite, hwrite', String.toList_append]
  · rw [withoutTags_append, htext, htext', Text.escapeMarkup_append, String.toList_append]

/-- A text in a tag stands between the two tags. -/
theorem toList_span (part : Part) (content : String) :
    (Style.span part.kind content).toList =
      write [.tag (.opening part)] ++ (content.toList ++ write [.tag .closing]) := by
  have hopening : ("<span class=\"preview-" ++ part.kind ++ "\">").toList =
      write [.tag (.opening part)] := by
    cases part <;> decide +kernel
  have hclosing : "</span>".toList = write [.tag .closing] := by decide +kernel
  rw [← hopening, ← hclosing]
  unfold Style.span
  simp only [String.toList_append, List.append_assoc]

/-- Markup in a tag marks up the same text. -/
theorem span (part : Part) (h : MarksUp text markup) :
    MarksUp text (Style.span part.kind markup) := by
  rcases h with ⟨tokens, hwrite, hproper, hnested, htext⟩
  have hleft : withoutTags ([.tag (.opening part)] ++ (tokens ++ [.tag .closing])) =
      withoutTags tokens := by
    rw [withoutTags_append, withoutTags_append]
    exact List.append_nil _
  refine ⟨[.tag (.opening part)] ++ (tokens ++ [.tag .closing]), ?_, ?_, .span part hnested,
    hleft.trans htext⟩
  · rw [toList_span, write_append, write_append, hwrite]
  · intro token htoken
    simp only [List.mem_append, List.mem_singleton] at htoken
    rcases htoken with rfl | hinside | rfl
    · trivial
    · exact hproper token hinside
    · trivial

/-- Joined markups mark up the joined texts. -/
theorem intercalate {joiner markedJoiner : String} (hjoiner : MarksUp joiner markedJoiner)
    {texts markups : List String} (h : List.Forall₂ MarksUp texts markups) :
    MarksUp (String.intercalate joiner texts) (String.intercalate markedJoiner markups) := by
  induction h with
  | nil => exact escape ""
  | @cons text markup rest others hfirst hrest ih =>
      cases hrest with
      | nil => simpa using hfirst
      | cons _ _ =>
          rw [String.intercalate_cons_cons, String.intercalate_cons_cons]
          exact (hfirst.append hjoiner).append ih

end MarksUp

end Markup

/-! ## The two styles -/

namespace Style

open Markup

/-- The markup of a condition marks up its text. -/
theorem marksUp_condition {c : Condition} {text markup : String}
    (htext : plain.condition c = .ok text) (hmarkup : Style.markup.condition c = .ok markup) :
    MarksUp text markup := by
  rcases Traversal.map_eq_ok_iff.mp htext with ⟨label, hlabel, rfl⟩
  rcases Traversal.map_eq_ok_iff.mp hmarkup with ⟨same, hsame, rfl⟩
  rcases Except.ok.inj (hlabel.symm.trans hsame) with rfl
  have hfield : MarksUp label (span "field" (Text.escapeMarkup label)) :=
    (MarksUp.escape label).span .condition
  have hnot : MarksUp "NOT" (span "not" "NOT") :=
    (MarksUp.of_escape_eq (by decide +kernel)).span .negation
  cases c.isNegated with
  | false => exact hfield
  | true => exact (hnot.append .space).append hfield

/-- The markup of a relation between two parts marks up its text. -/
theorem marksUp_joiner (relation : Relation) :
    MarksUp (plain.joiner relation) (Style.markup.joiner relation) := by
  have hword : MarksUp relation.keyword (span "operator" relation.keyword) := by
    refine (MarksUp.of_escape_eq ?_).span .relation
    cases relation <;> decide +kernel
  exact (MarksUp.space.append hword).append .space

/-- The markup of a group in a group marks up its text, with the parentheses. -/
theorem marksUp_group {text markup : String} (h : MarksUp text markup) :
    MarksUp (plain.group text) (Style.markup.group markup) := by
  have hopening : MarksUp "(" "(" := .of_escape_eq (by decide +kernel)
  have hclosing : MarksUp ")" ")" := .of_escape_eq (by decide +kernel)
  exact ((hopening.append h).append hclosing).span .group

/-- The markup of a formula marks up its text. -/
theorem marksUp_write {formula : Formula Comparison} {texts markups : Formula String}
    (htexts : formula.traverse (fun c => plain.condition c.condition) = .ok texts)
    (hmarkups : formula.traverse (fun c => Style.markup.condition c.condition) = .ok markups) :
    MarksUp (plain.write texts) (Style.markup.write markups) := by
  induction formula generalizing texts markups with
  | atom c =>
      rcases Traversal.map_eq_ok_iff.mp htexts with ⟨text, htext, rfl⟩
      rcases Traversal.map_eq_ok_iff.mp hmarkups with ⟨markup, hmarkup, rfl⟩
      rw [write_atom, write_atom]
      exact marksUp_condition htext hmarkup
  | junction relation parts ih =>
      rw [Formula.traverse_junction] at htexts hmarkups
      rcases Traversal.map_eq_ok_iff.mp htexts with ⟨inner, hinner, rfl⟩
      rcases Traversal.map_eq_ok_iff.mp hmarkups with ⟨marked, hmarked, rfl⟩
      rw [write_junction, write_junction]
      refine (marksUp_joiner relation).intercalate ?_
      rw [List.forall₂_map_left_iff, List.forall₂_map_right_iff]
      refine Traversal.forall₂_of_mapM₂_eq_ok ?_ hinner hmarked
      intro part hpart text markup htext hmarkup
      have hwritten := ih part hpart htext hmarkup
      -- Both styles put the part in parentheses, or neither of them does.
      have hsame : markup.relation? = text.relation? :=
        (Formula.relation?_of_traverse hmarkup).trans (Formula.relation?_of_traverse htext).symm
      rw [writePart, writePart, hsame]
      split
      · exact marksUp_group hwritten
      · exact hwritten

/-- So it does inside of another text. -/
theorem marksUp_writeWithin {formula : Formula Comparison} {texts markups : Formula String}
    (htexts : formula.traverse (fun c => plain.condition c.condition) = .ok texts)
    (hmarkups : formula.traverse (fun c => Style.markup.condition c.condition) = .ok markups)
    (outer : Option Relation) :
    MarksUp (plain.writeWithin outer texts) (Style.markup.writeWithin outer markups) := by
  have hwritten := marksUp_write htexts hmarkups
  have hsame : markups.relation? = texts.relation? :=
    (Formula.relation?_of_traverse hmarkups).trans (Formula.relation?_of_traverse htexts).symm
  unfold writeWithin
  rw [hsame]
  split
  · split
    · exact hwritten
    · exact marksUp_group hwritten
  · exact hwritten

end Style

/-! ## Previews of filters -/

namespace Filter

variable {filter : Filter} {default : Relation} {ambient : Option Relation}

/-- The markup of a filter marks up its text. -/
theorem marksUp_preview {text markup : String}
    (htext : filter.preview .plain default ambient = .ok text)
    (hmarkup : filter.preview .markup default ambient = .ok markup) :
    Markup.MarksUp text markup := by
  rw [preview_eq] at htext hmarkup
  rcases Traversal.map_eq_ok_iff.mp htext with ⟨texts, htexts, rfl⟩
  rcases Traversal.map_eq_ok_iff.mp hmarkup with ⟨markups, hmarkups, rfl⟩
  cases hformula : filter.formula? default with
  | none =>
      rw [hformula] at htexts hmarkups
      rcases Except.ok.inj htexts with rfl
      rcases Except.ok.inj hmarkups with rfl
      exact .of_escape_eq rfl
  | some formula =>
      rw [hformula, Option.mapM_some] at htexts hmarkups
      rcases Traversal.map_eq_ok_iff.mp htexts with ⟨written, hwritten, rfl⟩
      rcases Traversal.map_eq_ok_iff.mp hmarkups with ⟨marked, hmarked, rfl⟩
      exact Style.marksUp_writeWithin hwritten hmarked _

/-- A filter has a text exactly when it has markup. -/
theorem exists_text_iff_exists_markup :
    (∃ text, filter.preview .plain default ambient = .ok text) ↔
      ∃ markup, filter.preview .markup default ambient = .ok markup := by
  have hcondition (c : Condition) : (∃ text, Style.plain.condition c = .ok text) ↔
      ∃ markup, Style.markup.condition c = .ok markup :=
    Traversal.exists_map_iff.trans Traversal.exists_map_iff.symm
  rw [exists_preview_iff, exists_preview_iff]
  exact forall₃_congr fun c _ _ => hcondition c

/-- The markup of a filter is its text.  All of its angle brackets belong to the tags of previews,
the tags are nested, and what is left without the tags, with the escapes undone, is the text, which
is there exactly when the markup is. -/
theorem markup_shows_text (filter : Filter) (default : Relation) (ambient : Option Relation) :
    ((∃ text, filter.preview .plain default ambient = .ok text) ↔
      ∃ markup, filter.preview .markup default ambient = .ok markup) ∧
    ∀ text markup, filter.preview .plain default ambient = .ok text →
      filter.preview .markup default ambient = .ok markup →
        ∃ tokens, Markup.scan markup = some tokens ∧ Markup.Nested tokens ∧
          Text.unescapeMarkup (Markup.withoutTags tokens) = text.toList := by
  refine ⟨exists_text_iff_exists_markup, ?_⟩
  intro text markup htext hmarkup
  rcases marksUp_preview htext hmarkup with ⟨tokens, hwrite, hproper, hnested, hleft⟩
  refine ⟨tokens, Markup.scan_eq_some_iff.mpr ⟨hwrite, hproper⟩, hnested, ?_⟩
  rw [hleft, Text.unescapeMarkup_escapeMarkup]

/-- Fields and values that look like tags or entities are shown as they are, in nested groups inside
of another text. -/
theorem tags_in_text_are_shown :
    let tagged : Condition :=
      { id := "a", field := "<b>", operator := some .equal, value := .text "&lt;" }
    let closing : Condition :=
      { id := "b", field := "x", operator := some .notEqual, value := .text "</span>" }
    let quote : Condition := { id := "c", field := "'(", operator := some .present }
    let filter : Filter := .tree (some (.group "g" .or [.leaf (.plain tagged),
      .group "h" .and [.leaf (.plain closing), .leaf (.plain quote)]]))
    let text := "(<b>: &lt; OR (NOT x: </span> AND '(: exists))"
    let markup := "<span class=\"preview-group\">(" ++
      "<span class=\"preview-field\">&lt;b&gt;: &amp;lt;</span> " ++
      "<span class=\"preview-operator\">OR</span> <span class=\"preview-group\">(" ++
      "<span class=\"preview-not\">NOT</span> " ++
      "<span class=\"preview-field\">x: &lt;/span&gt;</span> " ++
      "<span class=\"preview-operator\">AND</span> " ++
      "<span class=\"preview-field\">&#x27;(: exists</span>)</span>)</span>"
    filter.preview .plain .and (some .and) = .ok text ∧
      filter.preview .markup .and (some .and) = .ok markup ∧
      ∃ tokens, Markup.scan markup = some tokens ∧ Markup.Nested tokens ∧
        Text.unescapeMarkup (Markup.withoutTags tokens) = text.toList := by
  intro tagged closing quote filter text markup
  have htext : filter.preview .plain .and (some .and) = .ok text := by
    simp only [filter, text, tagged, closing, quote]
    decide +kernel
  have hmarkup : filter.preview .markup .and (some .and) = .ok markup := by
    simp only [filter, markup, tagged, closing, quote]
    decide +kernel
  exact ⟨htext, hmarkup, (markup_shows_text filter .and (some .and)).2 text markup htext hmarkup⟩

end Filter

end FilterQuery
