import FilterQuery.Proofs.Json.Characters
import FilterQuery.Proofs.Json.Readable
import FilterQuery.Proofs.Json.Text
import FilterQuery.Proofs.Limits
import Mathlib.Data.List.Forall2

/-!
# Reading values that were written

A value that a text can denote is read again from what is written for it, on one line as on several.
The two forms differ in the blanks that stand around the parts of a container, and the reader passes
over blanks; so a container is read whatever its blanks are, and both forms are cases of that.

Main results:

- `exchangeable_eq_self`: what JSON can express is exchanged unchanged.
- `withoutRepeats_eq_self`: fields of different names are all kept.
- `denotes_list`, `denotes_object`: a container is read part by part, whatever its blanks are.
- `read_write`, `read_pretty`: the text of a value denotes the value, in either form.
- `isReadable_iff_exists_read`: nothing but such values is read from a text.
-/

namespace FilterQuery

open Number

/-! ## Values that JSON can express -/

namespace Value

mutual

/-- Whether JSON can express a value: it holds no bytes, all of its numbers are numbers, and the
names in an object are different. -/
def isJson : Value → Bool
  | float x => x.isFinite
  | bytes _ => false
  | list items => areJson items
  | object fields => decide (fields.map Prod.fst).Nodup && areFieldsJson fields
  | _ => true

/-- Whether JSON can express the items of a list. -/
def areJson : List Value → Bool
  | [] => true
  | item :: rest => item.isJson && areJson rest

/-- Whether JSON can express the values of the fields of an object. -/
def areFieldsJson : List (String × Value) → Bool
  | [] => true
  | (_, value) :: rest => value.isJson && areFieldsJson rest

end

mutual

/-- What JSON can express is exchanged unchanged. -/
theorem exchangeable_eq_self : ∀ value : Value, value.isJson = true → value.exchangeable = value
  | null, _ | bool _, _ | int _, _ | text _, _ => rfl
  | float x, h => if_pos h
  | list items, h => by
      rw [exchangeable, exchangeableItems_eq_self items h]
  | object fields, h => by
      rw [isJson, Bool.and_eq_true] at h
      rw [exchangeable, exchangeableFields_eq_self fields h.2]

/-- The items of a list are exchanged unchanged. -/
theorem exchangeableItems_eq_self :
    ∀ items : List Value, areJson items = true → exchangeableItems items = items
  | [], _ => rfl
  | item :: rest, h => by
      rw [areJson, Bool.and_eq_true] at h
      rw [exchangeableItems, exchangeable_eq_self item h.1, exchangeableItems_eq_self rest h.2]

/-- The fields of an object are exchanged unchanged. -/
theorem exchangeableFields_eq_self :
    ∀ fields : List (String × Value), areFieldsJson fields = true →
      exchangeableFields fields = fields
  | [], _ => rfl
  | (name, value) :: rest, h => by
      rw [areFieldsJson, Bool.and_eq_true] at h
      rw [exchangeableFields, exchangeable_eq_self value h.1,
        exchangeableFields_eq_self rest h.2]

end

mutual

/-- What JSON can express is denoted by a text, if every integer in it can be written. -/
theorem isReadable_of_isJson :
    ∀ value : Value, value.isJson = true → value.isWritable = true → value.IsReadable
  | null => fun _ _ => .null
  | bool b => fun _ _ => .bool b
  | int n => fun _ hwritable => .int ((isWritable_int_iff n).mp hwritable)
  | float x => fun hjson _ => .float fun hnan => by
      rw [Binary64.isNaN_of_isFinite hjson] at hnan
      contradiction
  | text s => fun _ _ => .text s
  | bytes octets => fun hjson _ => by contradiction
  | list items => fun hjson hwritable => .list (areReadable_of_areJson items hjson hwritable)
  | object fields => fun hjson hwritable => by
      rw [isJson, Bool.and_eq_true, decide_eq_true_eq] at hjson
      exact .object hjson.1 (areFieldsReadable_of_areFieldsJson fields hjson.2 hwritable)

/-- So are the items of a list. -/
theorem areReadable_of_areJson : ∀ items : List Value, areJson items = true →
    areWritable items = true → ∀ item ∈ items, item.IsReadable
  | [] => fun _ _ => List.forall_mem_nil _
  | item :: rest => fun hjson hwritable => by
      rw [areJson, Bool.and_eq_true] at hjson
      rw [areWritable, Bool.and_eq_true] at hwritable
      rw [List.forall_mem_cons]
      exact ⟨isReadable_of_isJson item hjson.1 hwritable.1,
        areReadable_of_areJson rest hjson.2 hwritable.2⟩

/-- So are the values in the fields of an object. -/
theorem areFieldsReadable_of_areFieldsJson : ∀ fields : List (String × Value),
    areFieldsJson fields = true → areFieldsWritable fields = true →
      ∀ field ∈ fields, field.2.IsReadable
  | [] => fun _ _ => List.forall_mem_nil _
  | (name, value) :: rest => fun hjson hwritable => by
      rw [areFieldsJson, Bool.and_eq_true] at hjson
      rw [areFieldsWritable, Bool.and_eq_true] at hwritable
      rw [List.forall_mem_cons]
      exact ⟨isReadable_of_isJson value hjson.1 hwritable.1,
        areFieldsReadable_of_areFieldsJson rest hjson.2 hwritable.2⟩

end

/-- A field of a new name is put behind the others. -/
theorem set_eq_append {name : String} {fields : List (String × Value)}
    (h : name ∉ fields.map Prod.fst) (value : Value) :
    set name value fields = fields ++ [(name, value)] := by
  induction fields with
  | nil => rfl
  | cons field rest ih =>
      rcases field with ⟨key, old⟩
      rw [List.map_cons, List.mem_cons, not_or] at h
      rw [set, if_neg (Ne.symm h.1), ih h.2]
      rfl

end Value

namespace Json

/-- Fields of different names are all kept. -/
theorem withoutRepeats_eq_self {fields : List (String × Value)}
    (h : (fields.map Prod.fst).Nodup) : withoutRepeats fields = fields := by
  induction fields using List.reverseRecOn with
  | nil => rfl
  | append_singleton fields field ih =>
      rcases field with ⟨name, value⟩
      rw [List.map_append, List.nodup_append] at h
      rcases h with ⟨hfields, _, hnew⟩
      have hname : name ∉ fields.map Prod.fst := fun hmem => hnew name hmem name (by simp) rfl
      rw [withoutRepeats_concat, ih hfields, Value.set_eq_append hname]

/-! ## Where a value starts -/

/-- Whether a text starts like a value: not with a blank, and not with a closing bracket. -/
def StartsLikeValue (s : List Char) : Prop :=
  ∃ c rest, s = c :: rest ∧ isJsonBlank c = false ∧ c ≠ ']' ∧ c ≠ '}'

/-- Nothing stands in front of a value. -/
theorem StartsLikeValue.skipBlanks_eq {s : List Char} (h : StartsLikeValue s) :
    skipBlanks s = s := by
  rcases h with ⟨c, rest, rfl, hblank, _⟩
  exact skipBlanks_of_not_blank hblank rest

/-- A minus or a digit starts neither a text nor a container. -/
theorem ne_of_startsLikeNumber {c : Char} (h : c = '-' ∨ Text.isAsciiDigit c = true) :
    isJsonBlank c = false ∧ c ≠ ']' ∧ c ≠ '}' ∧ c ≠ '"' ∧ c ≠ '[' ∧ c ≠ '{' := by
  rcases h with rfl | hdigit
  · decide
  · have hblank : isJsonBlank c = false := by
      cases hc : isJsonBlank c with
      | false => rfl
      | true =>
          simp only [isJsonBlank, Bool.or_eq_true, beq_iff_eq] at hc
          rcases hc with ((rfl | rfl) | rfl) | rfl <;> contradiction
    refine ⟨hblank, ?_, ?_, ?_, ?_, ?_⟩ <;> (rintro rfl; contradiction)

/-- What starts like a number starts like a value. -/
theorem StartsLikeNumber.startsLikeValue {s : List Char} (h : StartsLikeNumber s) :
    StartsLikeValue s := by
  rcases h with ⟨c, rest, rfl, hc⟩
  rcases ne_of_startsLikeNumber hc with ⟨hblank, hlist, hobject, _⟩
  exact ⟨c, rest, rfl, hblank, hlist, hobject⟩

/-- What starts like a number is read as a number. -/
theorem readValue_of_startsLikeNumber {bound fuel : Nat} {s : List Char}
    (h : StartsLikeNumber s) : readValue bound (fuel + 1) s = readScalar bound s := by
  rcases h with ⟨c, rest, rfl, hc⟩
  rcases ne_of_startsLikeNumber hc with ⟨_, _, _, hquote, hlist, hobject⟩
  rw [readValue]
  · exact fun _ heq => hquote (List.cons.inj heq).1
  · exact fun _ heq => hlist (List.cons.inj heq).1
  · exact fun _ heq => hobject (List.cons.inj heq).1

/-! ## Texts of values -/

/-- Whether a text stands for a value: it can be printed as it is, starts like a value, and is read
as this one wherever it ends, if the fuel is enough for its characters. -/
structure Denotes (text : List Char) (value : Value) : Prop where
  printable : ∀ c ∈ text, Text.isLineChar c = true
  starts : ∀ rest, StartsLikeValue (text ++ rest)
  reads : ∀ (fuel : Nat) (rest : List Char), text.length ≤ fuel → EndsNumber rest →
    readValue maxDigits fuel (text ++ rest) = .ok (value, rest)

/-- The text of a value that is no container is read at once. -/
theorem denotes_of_scalar {text : List Char} {value : Value}
    (hprintable : ∀ c ∈ text, Text.isLineChar c = true)
    (hstarts : ∀ rest, StartsLikeValue (text ++ rest))
    (hreads : ∀ fuel rest, EndsNumber rest →
      readValue maxDigits (fuel + 1) (text ++ rest) = .ok (value, rest)) :
    Denotes text value := by
  refine ⟨hprintable, hstarts, fun fuel rest hfuel hrest => ?_⟩
  rcases hstarts [] with ⟨c, others, htext, _⟩
  rw [List.append_nil] at htext
  rw [htext, List.length_cons] at hfuel
  obtain ⟨less, rfl⟩ : ∃ less, fuel = less + 1 := ⟨fuel - 1, by omega⟩
  exact hreads less rest hrest

/-- A word that is read as a value denotes it. -/
theorem denotes_word {first : Char} {word : List Char} {value : Value}
    (hprintable : (first :: word).all Text.isLineChar = true)
    (hfirst : isJsonBlank first = false ∧ first ≠ ']' ∧ first ≠ '}')
    (hreads : ∀ fuel rest,
      readValue maxDigits (fuel + 1) (first :: (word ++ rest)) = .ok (value, rest)) :
    Denotes (first :: word) value :=
  denotes_of_scalar (List.all_eq_true.mp hprintable)
    (fun rest => ⟨first, word ++ rest, rfl, hfirst⟩) fun fuel rest _ => hreads fuel rest

/-- An integer is read again, unless it is too long. -/
theorem denotes_int {n : Int} (h : n.natAbs < Nat.pow 10 maxDigits) :
    Denotes (integerText n).toList (.int n) := by
  refine denotes_of_scalar (fun c hc => isLineChar_of_mem_integerText hc)
    (fun rest => (startsLikeNumber_integerText n rest).startsLikeValue) fun fuel rest hrest => ?_
  rw [readValue_of_startsLikeNumber (startsLikeNumber_integerText n rest),
    readScalar_integerText (by decide) h hrest]

/-- A datum is read again; of those that are no numbers only the one that a text can denote is. -/
theorem denotes_float {x : Binary64} (h : x.isNaN = true → x = Binary64.nan) :
    Denotes (writeFloat x).toList (.float x) := by
  by_cases hfinite : x.isFinite = true
  · refine denotes_of_scalar (fun c hc => isLineChar_of_mem_writeFloat hfinite hc)
      (fun rest => (startsLikeNumber_writeFloat hfinite rest).startsLikeValue)
      fun fuel rest hrest => ?_
    rw [readValue_of_startsLikeNumber (startsLikeNumber_writeFloat hfinite rest),
      readScalar_writeFloat hfinite hrest]
  · rw [writeFloat, if_neg hfinite]
    by_cases hnan : x.isNaN = true
    · rw [if_pos hnan, h hnan]
      exact denotes_word (by decide) (by decide) fun _ _ => rfl
    · rw [if_neg hnan, Binary64.eq_infinity hfinite hnan]
      cases x.negative with
      | true =>
          change Denotes ['-', 'I', 'n', 'f', 'i', 'n', 'i', 't', 'y'] _
          exact denotes_word (by decide) (by decide) fun _ _ => rfl
      | false =>
          change Denotes ['I', 'n', 'f', 'i', 'n', 'i', 't', 'y'] _
          exact denotes_word (by decide) (by decide) fun _ _ => rfl

/-- A text between its quotes, before what follows it. -/
theorem toList_writeText_append (s : String) (rest : List Char) :
    (writeText s).toList ++ rest = '"' :: (s.toList.flatMap escapeChar ++ '"' :: rest) := by
  simp [writeText]

/-- A text is read again. -/
theorem denotes_text (s : String) : Denotes (writeText s).toList (.text s) := by
  refine denotes_of_scalar (fun c hc => isLineChar_of_mem_writeText hc) (fun rest => ?_)
    fun fuel rest _ => ?_
  · rw [toList_writeText_append]
    exact ⟨'"', _, rfl, by decide⟩
  · rw [toList_writeText_append, readValue, readText_writeText]
    rfl

/-! ## Texts of containers -/

/-- The blanks in a container: behind the opening bracket, behind every comma, and in front of the
closing bracket. -/
structure Spacing where
  front : List Char
  between : List Char
  back : List Char
  front_blank : ∀ c ∈ front, c = ' ' ∨ c = '\n'
  between_blank : ∀ c ∈ between, c = ' ' ∨ c = '\n'
  back_blank : ∀ c ∈ back, c = ' ' ∨ c = '\n'

/-- Blanks in front are passed over. -/
theorem skipBlanks_append {blanks : List Char} (h : ∀ c ∈ blanks, c = ' ' ∨ c = '\n')
    (s : List Char) : skipBlanks (blanks ++ s) = skipBlanks s := by
  refine List.dropWhile_append_of_pos fun c hc => ?_
  rcases h c hc with rfl | rfl <;> rfl

theorem skipBlanks_space (s : List Char) : skipBlanks (' ' :: s) = skipBlanks s :=
  rfl

/-- A blank ends a number. -/
theorem endsNumber_append {blanks rest : List Char} (h : ∀ c ∈ blanks, c = ' ' ∨ c = '\n')
    (hrest : EndsNumber rest) : EndsNumber (blanks ++ rest) := by
  cases blanks with
  | nil => exact hrest
  | cons c others =>
      rcases h c List.mem_cons_self with rfl | rfl <;> exact endsNumber_cons (by decide) _

/-- A blank may stand in a line. -/
theorem isLineChar_of_blank {c : Char} (h : c = ' ' ∨ c = '\n') : Text.isLineChar c = true := by
  rcases h with rfl | rfl <;> decide

namespace Spacing

/-- What stands in a container behind its first part. -/
def tail (spacing : Spacing) (closing : Char) : List (List Char) → List Char
  | [] => spacing.back ++ [closing]
  | part :: rest => ',' :: (spacing.between ++ (part ++ spacing.tail closing rest))

/-- The text of a container with given parts. -/
def around (spacing : Spacing) (opening closing : Char) : List (List Char) → List Char
  | [] => [opening, closing]
  | part :: rest => opening :: (spacing.front ++ (part ++ spacing.tail closing rest))

variable {opening closing : Char}

/-- A container can be printed as it is if its parts can. -/
theorem printable_tail (spacing : Spacing) (hclosing : Text.isLineChar closing = true)
    {parts : List (List Char)}
    (h : ∀ part ∈ parts, ∀ c ∈ part, Text.isLineChar c = true) :
    ∀ c ∈ spacing.tail closing parts, Text.isLineChar c = true := by
  induction parts with
  | nil =>
      intro c hc
      rw [tail, List.mem_append, List.mem_singleton] at hc
      rcases hc with hback | rfl
      · exact isLineChar_of_blank (spacing.back_blank c hback)
      · exact hclosing
  | cons part rest ih =>
      rw [List.forall_mem_cons] at h
      intro c hc
      rw [tail, List.mem_cons, List.mem_append, List.mem_append] at hc
      rcases hc with rfl | hbetween | hpart | hrest
      · decide
      · exact isLineChar_of_blank (spacing.between_blank c hbetween)
      · exact h.1 c hpart
      · exact ih h.2 c hrest

theorem printable_around (spacing : Spacing) (hopening : Text.isLineChar opening = true)
    (hclosing : Text.isLineChar closing = true) {parts : List (List Char)}
    (h : ∀ part ∈ parts, ∀ c ∈ part, Text.isLineChar c = true) :
    ∀ c ∈ spacing.around opening closing parts, Text.isLineChar c = true := by
  cases parts with
  | nil => simp [around, hopening, hclosing]
  | cons part rest =>
      rw [List.forall_mem_cons] at h
      intro c hc
      rw [around, List.mem_cons, List.mem_append, List.mem_append] at hc
      rcases hc with rfl | hfront | hpart | hrest
      · exact hopening
      · exact isLineChar_of_blank (spacing.front_blank c hfront)
      · exact h.1 c hpart
      · exact spacing.printable_tail hclosing h.2 c hrest

theorem length_tail_nil (spacing : Spacing) (closing : Char) :
    (spacing.tail closing []).length = spacing.back.length + 1 := by
  simp [tail]

theorem length_tail_cons (spacing : Spacing) (closing : Char) (part : List Char)
    (parts : List (List Char)) :
    (spacing.tail closing (part :: parts)).length =
      spacing.between.length + (part.length + (spacing.tail closing parts).length) + 1 := by
  simp [tail]

theorem length_around_cons (spacing : Spacing) (opening closing : Char) (part : List Char)
    (parts : List (List Char)) :
    (spacing.around opening closing (part :: parts)).length =
      spacing.front.length + (part.length + (spacing.tail closing parts).length) + 1 := by
  simp [around]

/-- Behind the last part stands the closing bracket. -/
theorem skipBlanks_tail_nil (spacing : Spacing) (hclosing : isJsonBlank closing = false)
    (rest : List Char) : skipBlanks (spacing.tail closing [] ++ rest) = closing :: rest := by
  rw [tail, List.append_assoc, skipBlanks_append spacing.back_blank]
  exact skipBlanks_of_not_blank hclosing rest

/-- The next part stands behind a comma and blanks. -/
theorem skipBlanks_tail_cons (spacing : Spacing) (closing : Char) (part : List Char)
    (parts : List (List Char)) (rest : List Char) :
    skipBlanks (spacing.tail closing (part :: parts) ++ rest) =
      ',' :: (spacing.between ++ (part ++ (spacing.tail closing parts ++ rest))) := by
  have htail : spacing.tail closing (part :: parts) ++ rest =
      ',' :: (spacing.between ++ (part ++ (spacing.tail closing parts ++ rest))) := by
    simp [tail]
  rw [htail, skipBlanks_of_not_blank (by decide)]

/-- The first part stands behind the opening bracket and blanks. -/
theorem around_cons_append (spacing : Spacing) (opening closing : Char) (part : List Char)
    (parts : List (List Char)) (rest : List Char) :
    spacing.around opening closing (part :: parts) ++ rest =
      opening :: (spacing.front ++ (part ++ (spacing.tail closing parts ++ rest))) := by
  simp [around]

/-- The text of a container starts with its opening bracket. -/
theorem exists_around_append (spacing : Spacing) (opening closing : Char)
    (parts : List (List Char)) (rest : List Char) :
    ∃ s, spacing.around opening closing parts ++ rest = opening :: s := by
  cases parts <;> exact ⟨_, rfl⟩

/-- A part of a container ends where a number may end. -/
theorem endsNumber_tail (spacing : Spacing) (hclosing : closing = ']' ∨ closing = '}')
    (parts : List (List Char)) (rest : List Char) :
    EndsNumber (spacing.tail closing parts ++ rest) := by
  cases parts with
  | cons part others => exact endsNumber_cons (by decide) _
  | nil =>
      rw [tail, List.append_assoc]
      refine endsNumber_append spacing.back_blank ?_
      rcases hclosing with rfl | rfl <;> exact endsNumber_cons (by decide) rest

end Spacing

variable {bound fuel : Nat}

/-- Parts that each stand for something can be printed as they are. -/
theorem printable_of_forall₂ {α : Type} {stands : List Char → α → Prop}
    (hstands : ∀ {part a}, stands part a → ∀ c ∈ part, Text.isLineChar c = true)
    {parts : List (List Char)} {meant : List α} (h : List.Forall₂ stands parts meant) :
    ∀ part ∈ parts, ∀ c ∈ part, Text.isLineChar c = true := by
  induction h with
  | nil => exact List.forall_mem_nil _
  | cons hpart _ ih => exact List.forall_mem_cons.mpr ⟨hstands hpart, ih⟩

/-- The text of a container stands for a value if it is read as that value, given fuel for what is
behind the opening bracket. -/
theorem denotes_of_container {spacing : Spacing} {opening closing : Char}
    (hbrackets : opening = '[' ∧ closing = ']' ∨ opening = '{' ∧ closing = '}')
    {parts : List (List Char)} {value : Value}
    (hprintable : ∀ part ∈ parts, ∀ c ∈ part, Text.isLineChar c = true)
    (hreads : ∀ (fuel : Nat) (rest : List Char),
      (spacing.around opening closing parts).length ≤ fuel + 1 →
        readValue maxDigits (fuel + 1) (spacing.around opening closing parts ++ rest) =
          .ok (value, rest)) :
    Denotes (spacing.around opening closing parts) value := by
  refine ⟨?_, fun rest => ?_, fun fuel rest hfuel _ => ?_⟩
  · rcases hbrackets with ⟨rfl, rfl⟩ | ⟨rfl, rfl⟩ <;>
      exact spacing.printable_around (by decide) (by decide) hprintable
  · rcases spacing.exists_around_append opening closing parts rest with ⟨s, hs⟩
    rw [hs]
    rcases hbrackets with ⟨rfl, _⟩ | ⟨rfl, _⟩ <;> exact ⟨_, s, rfl, by decide⟩
  · rcases spacing.exists_around_append opening closing parts [] with ⟨s, hs⟩
    have hlength := congrArg List.length hs
    rw [List.append_nil, List.length_cons] at hlength
    obtain ⟨fuel, rfl⟩ : ∃ less, fuel = less + 1 := ⟨fuel - 1, by omega⟩
    exact hreads fuel rest hfuel

/-! ### Lists -/

/-- The closing bracket stands behind the last item. -/
theorem readItems_last {s rest after : List Char} {item : Value}
    (h : readValue bound fuel s = .ok (item, rest)) (hskip : skipBlanks rest = ']' :: after) :
    readItems bound (fuel + 1) s = .ok ([item], after) := by
  simp only [readItems, h, bind, Except.bind, hskip]
  rfl

/-- Behind a comma the other items are read. -/
theorem readItems_next {s rest more after : List Char} {item : Value} {items : List Value}
    (h : readValue bound fuel s = .ok (item, rest)) (hskip : skipBlanks rest = ',' :: more)
    (hothers : readItems bound fuel (skipBlanks more) = .ok (items, after)) :
    readItems bound (fuel + 1) s = .ok (item :: items, after) := by
  simp only [readItems, h, bind, Except.bind, hskip, hothers]
  rfl

/-- The items of a list are read one after the other, whatever blanks stand around them. -/
theorem readItems_of_denotes (spacing : Spacing) {parts : List (List Char)} {items : List Value}
    (h : List.Forall₂ Denotes parts items) :
    ∀ {part : List Char} {item : Value}, Denotes part item → ∀ (fuel : Nat) (rest : List Char),
      (part ++ spacing.tail ']' parts).length ≤ fuel →
        readItems maxDigits fuel (part ++ (spacing.tail ']' parts ++ rest)) =
          .ok (item :: items, rest) := by
  induction h with
  | nil =>
      intro part item hpart fuel rest hfuel
      have hskip := spacing.skipBlanks_tail_nil (by decide : isJsonBlank ']' = false) rest
      rw [List.length_append, spacing.length_tail_nil] at hfuel
      obtain ⟨fuel, rfl⟩ : ∃ less, fuel = less + 1 := ⟨fuel - 1, by omega⟩
      have hread := hpart.reads fuel _ (by omega) (spacing.endsNumber_tail (.inl rfl) [] rest)
      exact readItems_last hread hskip
  | @cons next other parts items hnext _ ih =>
      intro part item hpart fuel rest hfuel
      rw [List.length_append, spacing.length_tail_cons] at hfuel
      obtain ⟨fuel, rfl⟩ : ∃ less, fuel = less + 1 := ⟨fuel - 1, by omega⟩
      have hread := hpart.reads fuel _ (by omega)
        (spacing.endsNumber_tail (.inl rfl) (next :: parts) rest)
      have hothers := ih hnext fuel rest (by rw [List.length_append]; omega)
      refine readItems_next hread (spacing.skipBlanks_tail_cons _ _ _ rest) ?_
      rw [skipBlanks_append spacing.between_blank, (hnext.starts _).skipBlanks_eq, hothers]

/-- A list that is not empty is read item by item. -/
theorem readValue_list {s : List Char} (h : StartsLikeValue (skipBlanks s)) :
    readValue bound (fuel + 1) ('[' :: s) = do
      let (items, after) ← readItems bound fuel (skipBlanks s)
      return (.list items, after) := by
  rcases h with ⟨c, rest, heq, _, hlist, _⟩
  rw [readValue, heq]
  split
  · next hclosing => exact absurd (List.cons.inj hclosing).1 hlist
  · rfl

/-- A list is read if its items are, whatever blanks stand around them. -/
theorem denotes_list (spacing : Spacing) {parts : List (List Char)} {items : List Value}
    (h : List.Forall₂ Denotes parts items) :
    Denotes (spacing.around '[' ']' parts) (.list items) := by
  have hprintable := printable_of_forall₂ Denotes.printable h
  refine denotes_of_container (.inl ⟨rfl, rfl⟩) hprintable fun fuel rest hfuel => ?_
  cases h with
  | nil => rfl
  | cons hpart hothers =>
      rw [spacing.length_around_cons] at hfuel
      have hread := readItems_of_denotes spacing hothers hpart fuel rest
        (by rw [List.length_append]; omega)
      rw [spacing.around_cons_append, readValue_list, skipBlanks_append spacing.front_blank,
        (hpart.starts _).skipBlanks_eq, hread]
      · rfl
      · rw [skipBlanks_append spacing.front_blank, (hpart.starts _).skipBlanks_eq]
        exact hpart.starts _

/-! ### Objects -/

/-- Whether a text stands for a field: it is a name, a colon, and the text of a value. -/
def DenotesField (text : List Char) (field : String × Value) : Prop :=
  ∃ content, Denotes content field.2 ∧
    (writeText field.1).toList ++ ':' :: ' ' :: content = text

/-- A field can be printed as it is. -/
theorem DenotesField.printable {text : List Char} {field : String × Value}
    (h : DenotesField text field) : ∀ c ∈ text, Text.isLineChar c = true := by
  rcases h with ⟨content, hcontent, rfl⟩
  intro c hc
  rw [List.mem_append, List.mem_cons, List.mem_cons] at hc
  rcases hc with hname | rfl | rfl | hvalue
  · exact isLineChar_of_mem_writeText hname
  · decide
  · decide
  · exact hcontent.printable c hvalue

/-- A field starts with a quote. -/
theorem DenotesField.starts {text : List Char} {field : String × Value}
    (h : DenotesField text field) (rest : List Char) : StartsLikeValue (text ++ rest) := by
  rcases h with ⟨content, _, rfl⟩
  rw [List.append_assoc, toList_writeText_append]
  exact ⟨'"', _, rfl, by decide⟩

/-- The closing brace stands behind the last field. -/
theorem readFields_last (name : String) {s rest after : List Char} {value : Value}
    (hstart : StartsLikeValue s) (h : readValue bound fuel s = .ok (value, rest))
    (hskip : skipBlanks rest = '}' :: after) :
    readFields bound (fuel + 1) ((writeText name).toList ++ ':' :: ' ' :: s) =
      .ok ([(name, value)], after) := by
  have hvalue : readValue bound fuel (skipBlanks (' ' :: s)) = .ok (value, rest) := by
    rw [skipBlanks_space, hstart.skipBlanks_eq, h]
  rw [toList_writeText_append, readFields, readText_writeText]
  change (readValue bound fuel (skipBlanks (' ' :: s)) >>= _) = _
  simp only [hvalue, bind, Except.bind, hskip]
  rfl

/-- Behind a comma the other fields are read. -/
theorem readFields_next (name : String) {s rest more after : List Char} {value : Value}
    {fields : List (String × Value)} (hstart : StartsLikeValue s)
    (h : readValue bound fuel s = .ok (value, rest)) (hskip : skipBlanks rest = ',' :: more)
    (hothers : readFields bound fuel (skipBlanks more) = .ok (fields, after)) :
    readFields bound (fuel + 1) ((writeText name).toList ++ ':' :: ' ' :: s) =
      .ok ((name, value) :: fields, after) := by
  have hvalue : readValue bound fuel (skipBlanks (' ' :: s)) = .ok (value, rest) := by
    rw [skipBlanks_space, hstart.skipBlanks_eq, h]
  rw [toList_writeText_append, readFields, readText_writeText]
  change (readValue bound fuel (skipBlanks (' ' :: s)) >>= _) = _
  simp only [hvalue, bind, Except.bind, hskip, hothers]
  rfl

/-- The fields of an object are read one after the other, whatever blanks stand around them. -/
theorem readFields_of_denotes (spacing : Spacing) {parts : List (List Char)}
    {fields : List (String × Value)} (h : List.Forall₂ DenotesField parts fields) :
    ∀ {part : List Char} {field : String × Value}, DenotesField part field →
      ∀ (fuel : Nat) (rest : List Char), (part ++ spacing.tail '}' parts).length ≤ fuel →
        readFields maxDigits fuel (part ++ (spacing.tail '}' parts ++ rest)) =
          .ok (field :: fields, rest) := by
  induction h with
  | nil =>
      rintro _ ⟨name, value⟩ ⟨content, hcontent, rfl⟩ fuel rest hfuel
      have hskip := spacing.skipBlanks_tail_nil (by decide : isJsonBlank '}' = false) rest
      simp only [List.length_append, List.length_cons, spacing.length_tail_nil] at hfuel
      obtain ⟨fuel, rfl⟩ : ∃ less, fuel = less + 1 := ⟨fuel - 1, by omega⟩
      have hread := hcontent.reads fuel _ (by omega) (spacing.endsNumber_tail (.inr rfl) [] rest)
      rw [List.append_assoc]
      exact readFields_last name (hcontent.starts _) hread hskip
  | @cons next other parts fields hnext _ ih =>
      rintro _ ⟨name, value⟩ ⟨content, hcontent, rfl⟩ fuel rest hfuel
      simp only [List.length_append, List.length_cons, spacing.length_tail_cons] at hfuel
      obtain ⟨fuel, rfl⟩ : ∃ less, fuel = less + 1 := ⟨fuel - 1, by omega⟩
      have hread := hcontent.reads fuel _ (by omega)
        (spacing.endsNumber_tail (.inr rfl) (next :: parts) rest)
      have hothers := ih hnext fuel rest (by rw [List.length_append]; omega)
      rw [List.append_assoc]
      refine readFields_next name (hcontent.starts _) hread
        (spacing.skipBlanks_tail_cons _ _ _ rest) ?_
      rw [skipBlanks_append spacing.between_blank, (hnext.starts _).skipBlanks_eq, hothers]

/-- An object that is not empty is read field by field. -/
theorem readValue_object {s : List Char} (h : StartsLikeValue (skipBlanks s)) :
    readValue bound (fuel + 1) ('{' :: s) = do
      let (fields, after) ← readFields bound fuel (skipBlanks s)
      return (.object (withoutRepeats fields), after) := by
  rcases h with ⟨c, rest, heq, _, _, hobject⟩
  rw [readValue, heq]
  split
  · next hclosing => exact absurd (List.cons.inj hclosing).1 hobject
  · rfl

/-- An object is read if its fields are and have different names, whatever blanks stand around
them. -/
theorem denotes_object (spacing : Spacing) {parts : List (List Char)}
    {fields : List (String × Value)} (hdistinct : (fields.map Prod.fst).Nodup)
    (h : List.Forall₂ DenotesField parts fields) :
    Denotes (spacing.around '{' '}' parts) (.object fields) := by
  have hprintable := printable_of_forall₂ DenotesField.printable h
  refine denotes_of_container (.inr ⟨rfl, rfl⟩) hprintable fun fuel rest hfuel => ?_
  cases h with
  | nil => rfl
  | cons hpart hothers =>
      rw [spacing.length_around_cons] at hfuel
      have hread := readFields_of_denotes spacing hothers hpart fuel rest
        (by rw [List.length_append]; omega)
      rw [spacing.around_cons_append, readValue_object, skipBlanks_append spacing.front_blank,
        (hpart.starts _).skipBlanks_eq, hread]
      · simp only [bind, Except.bind, withoutRepeats_eq_self hdistinct]
        rfl
      · rw [skipBlanks_append spacing.front_blank, (hpart.starts _).skipBlanks_eq]
        exact hpart.starts _

/-! ## Both forms -/

namespace Spacing

/-- On one line a blank stands behind every comma. -/
def line : Spacing where
  front := []
  between := [' ']
  back := []
  front_blank := by simp
  between_blank := by simp
  back_blank := by simp

/-- The end of a line, and the blanks in front of the next one. -/
def lineBreak (level : Nat) : List Char :=
  '\n' :: List.replicate (2 * level) ' '

theorem mem_lineBreak {level : Nat} {c : Char} (h : c ∈ lineBreak level) : c = ' ' ∨ c = '\n' := by
  rcases List.mem_cons.mp h with rfl | hblank
  · exact Or.inr rfl
  · exact Or.inl (List.eq_of_mem_replicate hblank)

/-- On several lines the parts stand one level further in than the brackets. -/
def lines (level : Nat) : Spacing where
  front := lineBreak (level + 1)
  between := lineBreak (level + 1)
  back := lineBreak level
  front_blank _ := mem_lineBreak
  between_blank _ := mem_lineBreak
  back_blank _ := mem_lineBreak

/-- The parts of a container are joined by a comma and the blanks behind it. -/
theorem toList_intercalate_append (spacing : Spacing) (closing : Char) {separator : String}
    (h : separator.toList = ',' :: spacing.between) (part : String) (parts : List String) :
    (String.intercalate separator (part :: parts)).toList ++ (spacing.back ++ [closing]) =
      part.toList ++ spacing.tail closing (parts.map String.toList) := by
  induction parts generalizing part with
  | nil => simp [tail]
  | cons next rest ih =>
      rw [String.intercalate_cons_cons, String.toList_append, String.toList_append, h,
        List.append_assoc, List.append_assoc, ih]
      simp [tail]

/-- A container on one line has the blanks of a line. -/
theorem toList_line {first last : String} {opening closing : Char}
    (hfirst : first.toList = [opening]) (hlast : last.toList = [closing]) (parts : List String) :
    (first ++ String.intercalate ", " parts ++ last).toList =
      line.around opening closing (parts.map String.toList) := by
  rw [String.toList_append, String.toList_append, hfirst, hlast]
  cases parts with
  | nil => simp [around]
  | cons part rest =>
      have hseparator : ", ".toList = ',' :: line.between := rfl
      have hjoined := line.toList_intercalate_append closing hseparator part rest
      exact congrArg (opening :: ·) hjoined

/-- A container on several lines has the blanks of lines. -/
theorem toList_block {first last : String} {opening closing : Char}
    (hfirst : first.toList = [opening]) (hlast : last.toList = [closing]) (level : Nat)
    (parts : List String) :
    (block first last level parts).toList =
      (lines level).around opening closing (parts.map String.toList) := by
  cases parts with
  | nil => simp [block, around, hfirst, hlast]
  | cons part rest =>
      have hbreak : ∀ n, ("\n" ++ String.ofList (List.replicate (2 * n) ' ')).toList =
          lineBreak n := by
        intro n
        simp [lineBreak]
      have hseparator : ("," ++ ("\n" ++ String.ofList
          (List.replicate (2 * (level + 1)) ' '))).toList = ',' :: (lines level).between := by
        rw [String.toList_append, hbreak]
        rfl
      have hjoined := (lines level).toList_intercalate_append closing hseparator part rest
      rw [block, if_neg (by simp)]
      dsimp only
      rw [String.toList_append, String.toList_append, String.toList_append, String.toList_append,
        hbreak, hbreak, hfirst, hlast, List.append_assoc, List.append_assoc]
      exact congrArg (fun s => opening :: (lineBreak (level + 1) ++ s)) hjoined

end Spacing

/-- The text of a field stands for it if that of its value does. -/
theorem denotesField_of_denotes {text : String} {name : String} {value : Value}
    (h : Denotes text.toList value) :
    DenotesField (writeText name ++ ": " ++ text).toList (name, value) := by
  refine ⟨text.toList, h, ?_⟩
  rw [String.toList_append, String.toList_append, List.append_assoc]
  rfl

/-- What a text can denote is denoted by what is written for it on one line. -/
theorem denotes_write {value : Value} (h : value.IsReadable) :
    Denotes (write value).toList value := by
  induction h with
  | null =>
      change Denotes ['n', 'u', 'l', 'l'] _
      exact denotes_word (by decide) (by decide) fun _ _ => rfl
  | bool b =>
      cases b with
      | true =>
          change Denotes ['t', 'r', 'u', 'e'] _
          exact denotes_word (by decide) (by decide) fun _ _ => rfl
      | false =>
          change Denotes ['f', 'a', 'l', 's', 'e'] _
          exact denotes_word (by decide) (by decide) fun _ _ => rfl
  | int short => exact denotes_int short
  | float absent => exact denotes_float absent
  | text s => exact denotes_text s
  | list _ ih =>
      rw [write, Spacing.toList_line rfl rfl, writeItems_eq_map, List.map_map]
      exact denotes_list _ (List.forall₂_map_left_iff.mpr (List.forall₂_same.mpr ih))
  | object distinct _ ih =>
      rw [write, Spacing.toList_line rfl rfl, writeFields_eq_map, List.map_map]
      refine denotes_object _ distinct (List.forall₂_map_left_iff.mpr (List.forall₂_same.mpr ?_))
      exact fun field hfield => denotesField_of_denotes (ih field hfield)

/-- What a text can denote is denoted by what is written for it on several lines. -/
theorem denotes_lines {value : Value} (h : value.IsReadable) (level : Nat) :
    Denotes (lines level value).toList value := by
  induction h generalizing level with
  | null => exact denotes_write .null
  | bool b => exact denotes_write (.bool b)
  | int short => exact denotes_int short
  | float absent => exact denotes_float absent
  | text s => exact denotes_text s
  | list _ ih =>
      rw [lines, Spacing.toList_block rfl rfl, itemLines_eq_map, List.map_map]
      refine denotes_list _ (List.forall₂_map_left_iff.mpr (List.forall₂_same.mpr ?_))
      exact fun item hitem => ih item hitem (level + 1)
  | object distinct _ ih =>
      rw [lines, Spacing.toList_block rfl rfl, fieldLines_eq_map, List.map_map]
      refine denotes_object _ distinct (List.forall₂_map_left_iff.mpr (List.forall₂_same.mpr ?_))
      exact fun field hfield => denotesField_of_denotes (ih field hfield (level + 1))

/-! ## Whole texts -/

/-- The text of a value is read as that value, also with blanks behind it. -/
theorem read_of_denotes {text blanks : List Char} {value : Value} (h : Denotes text value)
    (hblanks : ∀ c ∈ blanks, c = ' ' ∨ c = '\n') :
    read (String.ofList (text ++ blanks)) = .ok value := by
  have hends := endsNumber_append hblanks endsNumber_nil
  rw [List.append_nil] at hends
  have hread := h.reads ((text ++ blanks).length + 1) blanks
    (by rw [List.length_append]; omega) hends
  have hskip : skipBlanks blanks = [] := by
    have hempty := skipBlanks_append hblanks []
    rwa [List.append_nil] at hempty
  rw [read, readBounded, String.toList_ofList, (h.starts blanks).skipBlanks_eq,
    String.length_ofList, hread]
  simp only [bind, Except.bind, hskip]
  rfl

/-- What is written on one line for a value denotes the value. -/
theorem read_write {value : Value} (h : value.IsReadable) : read (write value) = .ok value := by
  have hread := read_of_denotes (denotes_write h) (List.forall_mem_nil _)
  rwa [List.append_nil, String.ofList_toList] at hread

/-- What is written on several lines for a value denotes the value. -/
theorem read_pretty {value : Value} (h : value.IsReadable) : read (pretty value) = .ok value := by
  have hread := read_of_denotes (denotes_lines h 0) (List.forall_mem_nil _)
  rwa [List.append_nil, String.ofList_toList] at hread

example : pretty (.object [("a", .list [.int 1, .null]), ("b", .object [])]) =
    "\x7b\n  \"a\": [\n    1,\n    null\n  ],\n  \"b\": \x7b\x7d\n\x7d" := by
  decide +kernel

/-- The values that are read from texts are those that can be written and read again. -/
theorem isReadable_iff_exists_read {value : Value} :
    value.IsReadable ↔ ∃ text, read text = .ok value :=
  ⟨fun h => ⟨write value, read_write h⟩, fun ⟨_, h⟩ => isReadable_of_read h⟩

end Json

end FilterQuery
