import MemberGraph.Json.Reader
import Mathlib.Data.List.DropRight

/-!
The grammar of strict JSON, as a relation between a value and the texts that hold it. It tells which
characters may stand where, without the reader. The reader takes every text of the grammar, and takes
it for the value that it holds.
-/

set_option autoImplicit false

namespace MemberGraph.Json

/-! ## Literals -/

def Blanks (text : List Char) : Prop := ∀ c ∈ text, c ∈ [' ', '\t', '\n', '\r']

def escapes : List (Char × Char) :=
  [('"', '"'), ('\\', '\\'), ('/', '/'), ('b', '\x08'), ('f', '\x0c'), ('n', '\n'), ('r', '\r'),
    ('t', '\t')]

def hexDigits : List (Char × Nat) :=
  "0123456789abcdef".toList.zipIdx ++ "ABCDEF".toList.zipIdx 10

/-- What may stand in a literal for one unit of its text. -/
inductive UnitText : TextUnit → List Char → Prop where
  | plain {c : Char} (printable : 0x20 ≤ c.toNat) (noQuote : c ≠ '"') (noEscape : c ≠ '\\') :
      UnitText (.char c) [c]
  | escape {mark c : Char} (listed : (mark, c) ∈ escapes) : UnitText (.char c) ['\\', mark]
  | code {a b c d : Char} {first second third fourth : Nat} (atFirst : (a, first) ∈ hexDigits)
      (atSecond : (b, second) ∈ hexDigits) (atThird : (c, third) ∈ hexDigits)
      (atFourth : (d, fourth) ∈ hexDigits) :
      UnitText (.ofCode (((first * 16 + second) * 16 + third) * 16 + fourth))
        ['\\', 'u', a, b, c, d]

inductive UnitsText : List TextUnit → List Char → Prop where
  | nil : UnitsText [] []
  | cons {unit : TextUnit} {units : List TextUnit} {text rest : List Char}
      (first : UnitText unit text) (others : UnitsText units rest) :
      UnitsText (unit :: units) (text ++ rest)

inductive LiteralText : Literal → List Char → Prop where
  | quoted {units : List TextUnit} {text : List Char} (spelled : UnitsText units text) :
      LiteralText ((joinUnits? units).map String.ofList) ('"' :: (text ++ ['"']))

/-! ## Numbers -/

structure Digits (text : List Char) : Prop where
  nonempty : text ≠ []
  isDigit : ∀ c ∈ text, c.isDigit

/-- The digits before the point, of which a leading zero is the only one. -/
structure Whole (text : List Char) : Prop extends Digits text where
  leadingZero : text.head? = some '0' → text = ['0']

inductive FractionText : Option (List Char) → List Char → Prop where
  | absent : FractionText none []
  | given {digits : List Char} (valid : Digits digits) : FractionText (some digits) ('.' :: digits)

inductive ExponentText : Option Int → List Char → Prop where
  | absent : ExponentText none []
  | unsigned {mark : Char} {digits : List Char} (isMark : mark = 'e' ∨ mark = 'E')
      (valid : Digits digits) : ExponentText (some (digitsValue digits)) (mark :: digits)
  | plus {mark : Char} {digits : List Char} (isMark : mark = 'e' ∨ mark = 'E')
      (valid : Digits digits) : ExponentText (some (digitsValue digits)) (mark :: '+' :: digits)
  | minus {mark : Char} {digits : List Char} (isMark : mark = 'e' ∨ mark = 'E')
      (valid : Digits digits) : ExponentText (some (-digitsValue digits)) (mark :: '-' :: digits)

inductive SignText : Bool → List Char → Prop where
  | absent : SignText false []
  | minus : SignText true ['-']

inductive NumberText : Number → List Char → Prop where
  | parts {minus : Bool} {sign whole decimals power : List Char} {fraction : Option (List Char)}
      {exponent : Option Int} (signed : SignText minus sign) (valid : Whole whole)
      (fractional : FractionText fraction decimals) (scaled : ExponentText exponent power) :
      NumberText (numberOfParts minus whole fraction exponent)
        (sign ++ (whole ++ (decimals ++ power)))

/-! ## Values -/

inductive KeyText : Literal → List Char → Prop where
  | padded {key : Literal} {before text after : List Char} (blanksBefore : Blanks before)
      (quoted : LiteralText key text) (blanksAfter : Blanks after) :
      KeyText key (before ++ (text ++ after))

mutual

inductive ValueText : Json → List Char → Prop where
  | null : ValueText .null ['n', 'u', 'l', 'l']
  | yes : ValueText (.bool true) ['t', 'r', 'u', 'e']
  | no : ValueText (.bool false) ['f', 'a', 'l', 's', 'e']
  | number {value : Number} {text : List Char} (written : NumberText value text) :
      ValueText (.number value) text
  | string {literal : Literal} {text : List Char} (quoted : LiteralText literal text) :
      ValueText (.string literal) text
  | emptyArray {blanks : List Char} (between : Blanks blanks) :
      ValueText (.array []) ('[' :: (blanks ++ [']']))
  | array {elements : List Json} {text : List Char} (listed : ElementsText elements text) :
      ValueText (.array elements) ('[' :: (text ++ [']']))
  | emptyObject {blanks : List Char} (between : Blanks blanks) :
      ValueText (.object []) ('{' :: (blanks ++ ['}']))
  | object {members : List (Literal × Json)} {text : List Char} (listed : MembersText members text) :
      ValueText (.object members) ('{' :: (text ++ ['}']))

/-- A value with the blanks around it. A whole document is no more than that. -/
inductive DocumentText : Json → List Char → Prop where
  | padded {value : Json} {before text after : List Char} (blanksBefore : Blanks before)
      (written : ValueText value text) (blanksAfter : Blanks after) :
      DocumentText value (before ++ (text ++ after))

inductive ElementsText : List Json → List Char → Prop where
  | last {value : Json} {text : List Char} (written : DocumentText value text) :
      ElementsText [value] text
  | more {value : Json} {others : List Json} {text rest : List Char}
      (written : DocumentText value text) (listed : ElementsText others rest) :
      ElementsText (value :: others) (text ++ ',' :: rest)

inductive MembersText : List (Literal × Json) → List Char → Prop where
  | last {key : Literal} {value : Json} {name text : List Char} (named : KeyText key name)
      (written : DocumentText value text) : MembersText [(key, value)] (name ++ ':' :: text)
  | more {key : Literal} {value : Json} {others : List (Literal × Json)} {name text rest : List Char}
      (named : KeyText key name) (written : DocumentText value text)
      (listed : MembersText others rest) :
      MembersText ((key, value) :: others) (name ++ ':' :: (text ++ ',' :: rest))

end

/-! ## Reading literals -/

private theorem escaped?_of_listed :
    ∀ given ∈ escapes, escaped? given.1 = some given.2 ∧ given.1 ≠ 'u' := by
  decide

theorem hexDigit?_of_listed : ∀ given ∈ hexDigits, hexDigit? given.1 = some given.2 := by decide

private theorem hexCode?_of_listed {a b c d : Char} {first second third fourth : Nat}
    (atFirst : (a, first) ∈ hexDigits) (atSecond : (b, second) ∈ hexDigits)
    (atThird : (c, third) ∈ hexDigits) (atFourth : (d, fourth) ∈ hexDigits) :
    hexCode? a b c d = some (((first * 16 + second) * 16 + third) * 16 + fourth) := by
  simp [hexCode?, hexDigit?_of_listed _ atFirst, hexDigit?_of_listed _ atSecond,
    hexDigit?_of_listed _ atThird, hexDigit?_of_listed _ atFourth]

private theorem scanString_unit {unit : TextUnit} {text : List Char} (spelled : UnitText unit text)
    (units : List TextUnit) (rest : List Char) :
    scanString units (text ++ rest) = scanString (unit :: units) rest := by
  cases spelled with
  | plain printable noQuote noEscape =>
      rw [List.singleton_append, scanString, if_neg (Nat.not_lt.mpr printable)]
      · exact noQuote
      · intro a b c d others isEscape
        exact absurd isEscape noEscape
      · intro mark others isEscape
        exact absurd isEscape noEscape
  | escape listed =>
      obtain ⟨known, notCode⟩ := escaped?_of_listed _ listed
      rw [List.cons_append, List.singleton_append, scanString, known]
      intro a b c d others isCode
      exact absurd isCode notCode
  | code atFirst atSecond atThird atFourth =>
      have value := hexCode?_of_listed atFirst atSecond atThird atFourth
      simp [scanString, value]

private theorem scanString_units {spelled : List TextUnit} {text : List Char}
    (written : UnitsText spelled text) (units : List TextUnit) (rest : List Char) :
    scanString units (text ++ '"' :: rest) = some (units.reverse ++ spelled, rest) := by
  induction written generalizing units with
  | nil => simp [scanString]
  | cons first others ih =>
      rw [List.append_assoc, scanString_unit first, ih, List.reverse_cons, List.append_assoc]
      rfl

theorem readLiteral_quoted {literal : Literal} {text : List Char}
    (quoted : LiteralText literal text) :
    ∃ inner, text = '"' :: inner ∧
      ∀ rest, readLiteral (inner ++ rest) = some (literal, rest) := by
  cases quoted with
  | quoted spelled =>
      refine ⟨_, rfl, fun rest => ?_⟩
      rw [List.append_assoc, readLiteral, List.singleton_append, scanString_units spelled]
      rfl

/-! ## Reading numbers -/

/-- What may follow a number: a blank, the end of a list item, or nothing. -/
def Ends (rest : List Char) : Prop :=
  ∀ c ∈ rest.head?, c ∈ [' ', '\t', '\n', '\r', ',', ']', '}']

def NoDigit (rest : List Char) : Prop := ∀ c ∈ rest.head?, c.isDigit = false

theorem readDigits?_append {digits : List Char} (valid : Digits digits) {rest : List Char}
    (noDigit : NoDigit rest) : readDigits? (digits ++ rest) = some (digits, rest) := by
  have stops : rest.takeWhile Char.isDigit = [] ∧ rest.dropWhile Char.isDigit = rest := by
    cases rest with
    | nil => exact ⟨rfl, rfl⟩
    | cons c others => simp [noDigit c rfl]
  simp [readDigits?, List.takeWhile_append_of_pos valid.isDigit,
    List.dropWhile_append_of_pos valid.isDigit, stops, valid.nonempty]

theorem readWhole?_append {whole : List Char} (valid : Whole whole) {rest : List Char}
    (noDigit : NoDigit rest) : readWhole? (whole ++ rest) = some (whole, rest) := by
  rw [readWhole?, readDigits?_append valid.toDigits noDigit]
  split
  · next second others after same =>
      -- The reader refuses a zero in front of other digits, which the grammar does not have.
      cases same
      cases valid.leadingZero rfl
  · rfl

theorem Ends.noDigit {rest : List Char} (ends : Ends rest) : NoDigit rest := by
  intro c first
  have listed := ends c first
  simp only [List.mem_cons, List.not_mem_nil, or_false] at listed
  rcases listed with rfl | rfl | rfl | rfl | rfl | rfl | rfl <;> rfl

theorem Digits.head {digits : List Char} (valid : Digits digits) (rest : List Char) :
    ∃ c others, digits ++ rest = c :: others ∧ c.isDigit := by
  obtain ⟨c, others, rfl⟩ := List.exists_cons_of_ne_nil valid.nonempty
  exact ⟨c, others ++ rest, rfl, valid.isDigit c List.mem_cons_self⟩

private theorem readMinus_digits {digits : List Char} (valid : Digits digits) (rest : List Char) :
    readMinus (digits ++ rest) = (false, digits ++ rest) := by
  obtain ⟨c, others, starts, isDigit⟩ := valid.head rest
  rw [starts, readMinus]
  rintro _ ⟨rfl, rfl⟩
  exact absurd isDigit (by decide)

theorem SignText.read {minus : Bool} {sign digits : List Char} (signed : SignText minus sign)
    (valid : Digits digits) (rest : List Char) :
    readMinus (sign ++ (digits ++ rest)) = (minus, digits ++ rest) := by
  cases signed with
  | absent => exact readMinus_digits valid rest
  | minus => rfl

theorem readFraction?_append {fraction : Option (List Char)} {decimals : List Char}
    (written : FractionText fraction decimals) {rest : List Char} (noDigit : NoDigit rest)
    (noPoint : '.' ∉ rest.head?) : readFraction? (decimals ++ rest) = some (fraction, rest) := by
  cases written with
  | absent =>
      rw [List.nil_append, readFraction?]
      rintro others rfl
      exact noPoint rfl
  | given valid =>
      rw [List.cons_append, readFraction?, readDigits?_append valid noDigit]
      rfl

theorem readPower?_append {digits rest : List Char} (valid : Digits digits) (noDigit : NoDigit rest) :
    readPower? (digits ++ rest) = some ((digitsValue digits : Int), rest) ∧
      readPower? ('+' :: (digits ++ rest)) = some ((digitsValue digits : Int), rest) ∧
      readPower? ('-' :: (digits ++ rest)) = some (-(digitsValue digits : Int), rest) := by
  have read := readDigits?_append valid noDigit
  refine ⟨?_, ?_, ?_⟩
  · obtain ⟨c, others, starts, isDigit⟩ := valid.head rest
    have noMinus := readMinus_digits valid rest
    have noPlus : c ≠ '+' := by
      rintro rfl
      exact absurd isDigit (by decide)
    rw [starts] at noMinus read ⊢
    simp [readPower?, noMinus, noPlus, read]
  · simp [readPower?, read]
  · simp [readPower?, readMinus, read]

theorem readExponent?_append {exponent : Option Int} {power : List Char}
    (written : ExponentText exponent power) {rest : List Char} (ends : Ends rest) :
    readExponent? (power ++ rest) = some (exponent, rest) := by
  cases written with
  | absent =>
      rw [List.nil_append, readExponent?.eq_def]
      split
      · exact absurd (ends 'e' rfl) (by decide)
      · exact absurd (ends 'E' rfl) (by decide)
      · rfl
  | unsigned isMark valid =>
      have read := (readPower?_append valid ends.noDigit).1
      rcases isMark with rfl | rfl <;> simp [readExponent?, read]
  | plus isMark valid =>
      have read := (readPower?_append valid ends.noDigit).2.1
      rcases isMark with rfl | rfl <;> simp [readExponent?, read]
  | minus isMark valid =>
      have read := (readPower?_append valid ends.noDigit).2.2
      rcases isMark with rfl | rfl <;> simp [readExponent?, read]

theorem ExponentText.stops {exponent : Option Int} {power : List Char}
    (written : ExponentText exponent power) {rest : List Char} (ends : Ends rest) :
    NoDigit (power ++ rest) ∧ '.' ∉ (power ++ rest).head? := by
  have marked : ∀ {mark : Char} {others : List Char}, mark = 'e' ∨ mark = 'E' →
      NoDigit (mark :: others) ∧ '.' ∉ (mark :: others).head? := by
    rintro mark others (rfl | rfl) <;> simp [NoDigit]
  cases written with
  | absent => exact ⟨ends.noDigit, fun point => absurd (ends '.' point) (by decide)⟩
  | unsigned isMark valid => exact marked isMark
  | plus isMark valid => exact marked isMark
  | minus isMark valid => exact marked isMark

theorem FractionText.noDigit {fraction : Option (List Char)} {decimals : List Char}
    (written : FractionText fraction decimals) {rest : List Char} (noDigit : NoDigit rest) :
    NoDigit (decimals ++ rest) := by
  cases written with
  | absent => exact noDigit
  | given valid => simp [NoDigit]

theorem readNumber_append {value : Number} {text : List Char} (written : NumberText value text)
    {rest : List Char} (ends : Ends rest) : readNumber (text ++ rest) = some (value, rest) := by
  cases written with
  | parts signed valid fractional scaled =>
      obtain ⟨noDigit, noPoint⟩ := scaled.stops ends
      have whole := readWhole?_append valid (fractional.noDigit noDigit)
      have fraction := readFraction?_append fractional noDigit noPoint
      have exponent := readExponent?_append scaled ends
      have sign := signed.read valid.toDigits
      simp [readNumber, sign, whole, fraction, exponent]

/-! ## Reading values -/

theorem isBlank_iff {c : Char} : isBlank c ↔ c ∈ [' ', '\t', '\n', '\r'] := by
  simp [isBlank, or_assoc]

theorem skipBlanks_append {blanks : List Char} (between : Blanks blanks) (rest : List Char) :
    skipBlanks (blanks ++ rest) = skipBlanks rest :=
  List.dropWhile_append_of_pos fun c there => isBlank_iff.mpr (between c there)

theorem skipBlanks_cons {c : Char} (visible : isBlank c = false) (rest : List Char) :
    skipBlanks (c :: rest) = c :: rest := by
  simp [skipBlanks, visible]

private theorem skipBlanks_skipBlanks (input : List Char) :
    skipBlanks (skipBlanks input) = skipBlanks input :=
  List.dropWhile_idempotent isBlank input

def Starts (c : Char) : Prop := c ∈ ['n', 't', 'f', '"', '[', '{', '-'] ∨ c.isDigit

theorem readValue_skipBlanks (fuel : Nat) (input : List Char) :
    readValue fuel (skipBlanks input) = readValue fuel input := by
  cases fuel with
  | zero => simp [readValue]
  | succ fuel => simp only [readValue, skipBlanks_skipBlanks]

private theorem readElements_skipBlanks (fuel : Nat) (done : List Json) (input : List Char) :
    readElements fuel done (skipBlanks input) = readElements fuel done input := by
  cases fuel with
  | zero => simp [readElements]
  | succ fuel => simp only [readElements, readValue_skipBlanks]

private theorem readMembers_skipBlanks (fuel : Nat) (done : List (Literal × Json))
    (input : List Char) :
    readMembers fuel done (skipBlanks input) = readMembers fuel done input := by
  cases fuel with
  | zero => simp [readMembers]
  | succ fuel => simp only [readMembers, skipBlanks_skipBlanks]

theorem NumberText.starts {value : Number} {text : List Char} (written : NumberText value text) :
    ∃ c rest, text = c :: rest ∧ (c = '-' ∨ c.isDigit) := by
  cases written with
  | parts signed valid fractional scaled =>
      cases signed with
      | absent =>
          obtain ⟨c, others, starts, isDigit⟩ := valid.toDigits.head _
          exact ⟨c, others, starts, .inr isDigit⟩
      | minus => exact ⟨_, _, rfl, .inl rfl⟩

theorem ValueText.starts {value : Json} {text : List Char} (written : ValueText value text) :
    ∃ c rest, text = c :: rest ∧ Starts c := by
  cases written with
  | number written =>
      obtain ⟨c, rest, rfl, isMinus | isDigit⟩ := written.starts
      · exact ⟨c, rest, rfl, .inl (by simp [isMinus])⟩
      · exact ⟨c, rest, rfl, .inr isDigit⟩
  | string quoted =>
      obtain ⟨rest, rfl, _⟩ := readLiteral_quoted quoted
      exact ⟨_, _, rfl, .inl (by decide)⟩
  | _ => exact ⟨_, _, rfl, .inl (by decide)⟩

theorem Starts.visible {c : Char} (starts : Starts c) : isBlank c = false := by
  rw [← Bool.not_eq_true, isBlank_iff]
  intro blank
  simp only [List.mem_cons, List.not_mem_nil, or_false] at blank
  rcases blank with rfl | rfl | rfl | rfl <;> revert starts <;> simp [Starts]

theorem DocumentText.starts {value : Json} {text : List Char} (written : DocumentText value text)
    (rest : List Char) : ∃ c more, skipBlanks (text ++ rest) = c :: more ∧ Starts c := by
  cases written with
  | padded blanksBefore written blanksAfter =>
      obtain ⟨c, more, rfl, starts⟩ := written.starts
      rw [List.append_assoc, skipBlanks_append blanksBefore]
      exact ⟨c, _, skipBlanks_cons starts.visible _, starts⟩

theorem ElementsText.starts {elements : List Json} {text : List Char}
    (listed : ElementsText elements text) (rest : List Char) :
    ∃ c more, skipBlanks (text ++ rest) = c :: more ∧ Starts c := by
  cases listed with
  | last written => exact written.starts rest
  | more written listed => rw [List.append_assoc]; exact written.starts _

theorem KeyText.starts {key : Literal} {text : List Char} (named : KeyText key text)
    (rest : List Char) : ∃ more, skipBlanks (text ++ rest) = '"' :: more := by
  cases named with
  | padded blanksBefore quoted blanksAfter =>
      obtain ⟨more, rfl, _⟩ := readLiteral_quoted quoted
      rw [List.append_assoc, skipBlanks_append blanksBefore]
      exact ⟨_, skipBlanks_cons rfl _⟩

theorem MembersText.starts {members : List (Literal × Json)} {text : List Char}
    (listed : MembersText members text) (rest : List Char) :
    ∃ more, skipBlanks (text ++ rest) = '"' :: more := by
  cases listed with
  | last named written => rw [List.append_assoc]; exact named.starts _
  | more named written listed => rw [List.append_assoc]; exact named.starts _

section Steps

variable {fuel : Nat} {input rest blanks : List Char} {value : Json} {key : Literal}

private theorem readValue_number {number : Number} {text : List Char}
    (written : NumberText number text)
    (ends : Ends rest) : readValue (fuel + 1) (text ++ rest) = some (.number number, rest) := by
  have read := readNumber_append written ends
  obtain ⟨c, more, rfl, first⟩ := written.starts
  have visible : skipBlanks (c :: more ++ rest) = c :: more ++ rest := by
    refine skipBlanks_cons (Starts.visible ?_) _
    exact first.imp_left fun isMinus => by simp [isMinus]
  have apart : c ∉ ['n', 't', 'f', '"', '[', '{'] := by
    intro other
    simp only [List.mem_cons, List.not_mem_nil, or_false] at other
    rcases other with rfl | rfl | rfl | rfl | rfl | rfl <;> revert first <;> decide
  simp only [List.mem_cons, List.not_mem_nil, or_false, not_or] at apart
  simp only [List.cons_append] at visible read ⊢
  simp [readValue, visible, apart, read]

private theorem readValue_string {text : List Char} (quoted : LiteralText key text) :
    readValue (fuel + 1) (text ++ rest) = some (.string key, rest) := by
  obtain ⟨inner, rfl, read⟩ := readLiteral_quoted quoted
  simp [readValue, skipBlanks_cons, isBlank, read]

private theorem readValue_array {elements : List Json}
    (unclosed : ∀ more, skipBlanks input ≠ ']' :: more)
    (read : readElements fuel [] input = some (elements, rest)) :
    readValue (fuel + 1) ('[' :: input) = some (.array elements, rest) := by
  rw [← readElements_skipBlanks] at read
  have bracket : skipBlanks ('[' :: input) = '[' :: input := skipBlanks_cons rfl input
  simp only [readValue, bracket, read, Option.map_some]

private theorem readValue_object {members : List (Literal × Json)}
    (unclosed : ∀ more, skipBlanks input ≠ '}' :: more)
    (read : readMembers fuel [] input = some (members, rest)) :
    readValue (fuel + 1) ('{' :: input) = some (.object members, rest) := by
  rw [← readMembers_skipBlanks] at read
  have brace : skipBlanks ('{' :: input) = '{' :: input := skipBlanks_cons rfl input
  simp only [readValue, brace, read, Option.map_some]

private theorem readElements_last {done : List Json} (between : Blanks blanks)
    (read : readValue fuel input = some (value, blanks ++ ']' :: rest)) :
    readElements (fuel + 1) done input = some ((value :: done).reverse, rest) := by
  simp [readElements, read, skipBlanks_append between, skipBlanks_cons, isBlank]

private theorem readElements_more {done : List Json} (between : Blanks blanks)
    (read : readValue fuel input = some (value, blanks ++ ',' :: rest)) :
    readElements (fuel + 1) done input = readElements fuel (value :: done) rest := by
  simp [readElements, read, skipBlanks_append between, skipBlanks_cons, isBlank]

private theorem readMembers_last {name : List Char} {done : List (Literal × Json)}
    (named : KeyText key name) (between : Blanks blanks)
    (read : readValue fuel input = some (value, blanks ++ '}' :: rest)) :
    readMembers (fuel + 1) done (name ++ ':' :: input) =
      some (((key, value) :: done).reverse, rest) := by
  cases named with
  | padded blanksBefore quoted blanksAfter =>
      obtain ⟨inner, rfl, key⟩ := readLiteral_quoted quoted
      simp [readMembers, skipBlanks_append blanksBefore, skipBlanks_append blanksAfter,
        skipBlanks_append between, skipBlanks_cons, isBlank, key, read]

private theorem readMembers_more {name : List Char} {done : List (Literal × Json)}
    (named : KeyText key name) (between : Blanks blanks)
    (read : readValue fuel input = some (value, blanks ++ ',' :: rest)) :
    readMembers (fuel + 1) done (name ++ ':' :: input) =
      readMembers fuel ((key, value) :: done) rest := by
  cases named with
  | padded blanksBefore quoted blanksAfter =>
      obtain ⟨inner, rfl, key⟩ := readLiteral_quoted quoted
      simp [readMembers, skipBlanks_append blanksBefore, skipBlanks_append blanksAfter,
        skipBlanks_append between, skipBlanks_cons, isBlank, key, read]

end Steps

def ReadsValues (fuel : Nat) : Prop :=
  ∀ {value text rest}, ValueText value text → 2 * text.length ≤ fuel → Ends rest →
    readValue fuel (text ++ rest) = some (value, rest)

def ReadsElements (fuel : Nat) : Prop :=
  ∀ {elements text} (done : List Json) (rest : List Char), ElementsText elements text →
    2 * text.length + 1 ≤ fuel →
    readElements fuel done (text ++ ']' :: rest) = some (done.reverse ++ elements, rest)

def ReadsMembers (fuel : Nat) : Prop :=
  ∀ {members text} (done : List (Literal × Json)) (rest : List Char), MembersText members text →
    2 * text.length + 1 ≤ fuel →
    readMembers fuel done (text ++ '}' :: rest) = some (done.reverse ++ members, rest)

theorem Blanks.ends {blanks rest : List Char} (between : Blanks blanks) (ends : Ends rest) :
    Ends (blanks ++ rest) := by
  cases blanks with
  | nil => exact ends
  | cons c others =>
      rintro c' ⟨rfl⟩
      have listed := between c List.mem_cons_self
      simp only [List.mem_cons, List.not_mem_nil, or_false] at listed ⊢
      rcases listed with rfl | rfl | rfl | rfl <;> simp

theorem readValue_document {fuel : Nat} (reads : ReadsValues fuel) {value : Json}
    {text : List Char} (written : DocumentText value text) (enough : 2 * text.length ≤ fuel)
    (rest : List Char) (ends : Ends rest) :
    ∃ blanks, Blanks blanks ∧ readValue fuel (text ++ rest) = some (value, blanks ++ rest) := by
  cases written with
  | padded blanksBefore written blanksAfter =>
      refine ⟨_, blanksAfter, ?_⟩
      rw [List.append_assoc, List.append_assoc, ← readValue_skipBlanks,
        skipBlanks_append blanksBefore, readValue_skipBlanks]
      simp only [List.length_append] at enough
      exact reads written (by omega) (blanksAfter.ends ends)

theorem ReadsElements.succ {fuel : Nat} (values : ReadsValues fuel) (elements : ReadsElements fuel) :
    ReadsElements (fuel + 1) := by
  intro listed text done rest spelled enough
  cases spelled with
  | last written =>
      obtain ⟨blanks, between, read⟩ :=
        readValue_document values written (by omega) (']' :: rest) (by simp [Ends])
      rw [readElements_last between read, List.reverse_cons]
  | more written spelled =>
      simp only [List.length_append, List.length_cons] at enough
      obtain ⟨blanks, between, read⟩ :=
        readValue_document values written (by omega) (',' :: _) (by simp [Ends])
      rw [List.append_assoc, List.cons_append, readElements_more between read,
        elements _ _ spelled (by omega), List.reverse_cons, List.append_assoc]
      rfl

theorem ReadsMembers.succ {fuel : Nat} (values : ReadsValues fuel) (members : ReadsMembers fuel) :
    ReadsMembers (fuel + 1) := by
  intro listed text done rest spelled enough
  cases spelled with
  | last named written =>
      simp only [List.length_append, List.length_cons] at enough
      obtain ⟨blanks, between, read⟩ :=
        readValue_document values written (by omega) ('}' :: rest) (by simp [Ends])
      rw [List.append_assoc, List.cons_append, readMembers_last named between read,
        List.reverse_cons]
  | more named written spelled =>
      simp only [List.length_append, List.length_cons] at enough
      obtain ⟨blanks, between, read⟩ :=
        readValue_document values written (by omega) (',' :: _) (by simp [Ends])
      rw [List.append_assoc, List.cons_append, List.append_assoc, List.cons_append,
        readMembers_more named between read, members _ _ spelled (by omega), List.reverse_cons,
        List.append_assoc]
      rfl

theorem ReadsValues.succ {fuel : Nat} (elements : ReadsElements fuel) (members : ReadsMembers fuel) :
    ReadsValues (fuel + 1) := by
  intro value text rest spelled enough ends
  cases spelled with
  | null => rfl
  | yes => rfl
  | no => rfl
  | number written => exact readValue_number written ends
  | string quoted => exact readValue_string quoted
  | emptyArray between =>
      simp [readValue, skipBlanks_append between, skipBlanks_cons, isBlank]
  | array listed =>
      simp only [List.length_cons, List.length_append, List.length_nil] at enough
      rw [List.cons_append, List.append_assoc, List.singleton_append]
      refine readValue_array (fun more closed => ?_) (elements [] rest listed (by omega))
      -- What comes after the bracket starts a value, so it does not close the list.
      obtain ⟨c, others, first, starts⟩ := listed.starts (']' :: rest)
      rw [first] at closed
      cases closed
      revert starts
      simp [Starts]
  | emptyObject between =>
      simp [readValue, skipBlanks_append between, skipBlanks_cons, isBlank]
  | object listed =>
      simp only [List.length_cons, List.length_append, List.length_nil] at enough
      rw [List.cons_append, List.append_assoc, List.singleton_append]
      refine readValue_object (fun more closed => ?_) (members [] rest listed (by omega))
      obtain ⟨others, first⟩ := listed.starts ('}' :: rest)
      rw [first] at closed
      cases closed

/-- Two units of fuel for each character are enough: a list and its next value take one unit each,
and every value has a character of its own. -/
theorem reads_within (fuel : Nat) : ReadsValues fuel ∧ ReadsElements fuel ∧ ReadsMembers fuel := by
  induction fuel with
  | zero =>
      refine ⟨fun written enough => ?_, fun _ _ _ enough => by omega, fun _ _ _ enough => by omega⟩
      obtain ⟨c, rest, rfl, _⟩ := written.starts
      simp at enough
  | succ fuel ih =>
      obtain ⟨values, elements, members⟩ := ih
      exact ⟨ReadsValues.succ elements members, ReadsElements.succ values elements,
        ReadsMembers.succ values members⟩

theorem parseChars?_document {value : Json} {text : List Char} (written : DocumentText value text) :
    parseChars? text = some value := by
  obtain ⟨blanks, between, read⟩ := readValue_document (reads_within (2 * text.length + 1)).1 written
    (by omega) [] (by simp [Ends])
  have rest := skipBlanks_append between []
  rw [List.append_nil] at read
  simp only [parseChars?, read, rest]
  rfl

end MemberGraph.Json
