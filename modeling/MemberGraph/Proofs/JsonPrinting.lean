import MemberGraph.Json.Printer
import MemberGraph.Proofs.JsonGrammar

/-!
An indented value is a text of the grammar, at every level of indentation. So it is read back as the
value that was written, whatever characters its texts hold.
-/

set_option autoImplicit false

namespace MemberGraph.Json

/-! ## Literals -/

private theorem hexDigit_listed : ∀ value < 16, (hexDigit value, value) ∈ hexDigits := by decide

private theorem escapeChar_written (c : Char) : UnitText (.char c) (escapeChar c) := by
  unfold escapeChar
  -- Seven characters have an escape of their own.
  iterate 7
    split
    · next same =>
        rw [eq_of_beq same]
        exact .escape (by decide)
  split
  · next control =>
      have value : ((0 * 16 + 0) * 16 + c.toNat / 16) * 16 + c.toNat % 16 = c.toNat := by omega
      have code : TextUnit.ofCode (((0 * 16 + 0) * 16 + c.toNat / 16) * 16 + c.toNat % 16) =
          .char c := by
        rw [value, TextUnit.ofCode, if_neg (by omega), Char.ofNat_toNat]
      rw [← code]
      exact .code (by decide) (by decide) (hexDigit_listed _ (by omega))
        (hexDigit_listed _ (by omega))
  · refine .plain ?_ ?_ ?_ <;> simp_all

private theorem flatMap_escapeChar_written (chars : List Char) :
    UnitsText (chars.map .char) (chars.flatMap escapeChar) := by
  induction chars with
  | nil => exact .nil
  | cons c rest ih => exact .cons (escapeChar_written c) ih

private theorem joinUnits?_chars (chars : List Char) :
    joinUnits? (chars.map .char) = some chars := by
  induction chars with
  | nil => rfl
  | cons c rest ih => simp [joinUnits?, ih]

theorem literalChars_written (literal : Literal) : LiteralText literal (literalChars literal) := by
  cases literal with
  | some text =>
      have quoted := LiteralText.quoted (flatMap_escapeChar_written text.toList)
      rw [joinUnits?_chars, Option.map_some, String.ofList_toList] at quoted
      exact quoted
  | none =>
      have code : TextUnit.ofCode (((13 * 16 + 8) * 16 + 0) * 16 + 0) = .half 0xD800 := by decide
      have half : UnitText (.half 0xD800) ['\\', 'u', 'd', '8', '0', '0'] := by
        rw [← code]
        exact .code (by decide) (by decide) (by decide) (by decide)
      exact .quoted (.cons half .nil)

/-! ## Numbers -/

theorem digits_naturalChars (value : Nat) : Digits (naturalChars value) where
  nonempty := Nat.toDigits_ne_nil
  isDigit _ there := Nat.isDigit_of_mem_toDigits (by decide) (by decide) there

theorem digitsValue_naturalChars (value : Nat) : digitsValue (naturalChars value) = value := by
  have back := Nat.ofDigitChars_toDigits (b := 10) (n := value) (by decide) (by decide)
  simpa only [digitsValue, naturalChars, Nat.ofDigitChars, Nat.mul_comm 10] using back

private theorem eq_zero_of_digitChar :
    ∀ value < 10, Nat.digitChar value = '0' → value = 0 := by decide

private theorem eq_zero_of_leadingZero (value : Nat)
    (leading : (naturalChars value).head? = some '0') :
    value = 0 := by
  induction value using Nat.strongRecOn with
  | ind value ih =>
      rw [naturalChars] at leading
      by_cases small : value < 10
      · rw [Nat.toDigits_of_lt_base small] at leading
        exact eq_zero_of_digitChar value small (by simpa using leading)
      · rw [Nat.toDigits_of_base_le (by decide) (by omega), List.head?_append_of_ne_nil _
          Nat.toDigits_ne_nil] at leading
        have none := ih (value / 10) (by omega) leading
        omega

private theorem whole_naturalChars (value : Nat) : Whole (naturalChars value) where
  toDigits := digits_naturalChars value
  leadingZero leading := by
    rw [eq_zero_of_leadingZero value leading]
    rfl

private theorem integerChars_signed (value : Int) :
    ∃ minus sign, SignText minus sign ∧ integerChars value = sign ++ naturalChars value.natAbs ∧
      value = (if minus then -(value.natAbs : Int) else value.natAbs) ∧
      ¬(minus ∧ value.natAbs = 0) := by
  cases value with
  | ofNat value => exact ⟨false, [], .absent, rfl, rfl, by simp⟩
  | negSucc value => exact ⟨true, ['-'], .minus, rfl, rfl, by simp⟩

private theorem exponent_written (value : Int) :
    ExponentText (some value) ('e' :: integerChars value) := by
  cases value with
  | ofNat value =>
      have written := ExponentText.unsigned (.inl rfl) (digits_naturalChars value)
      rw [digitsValue_naturalChars] at written
      exact written
  | negSucc value =>
      have written := ExponentText.minus (.inl rfl) (digits_naturalChars (value + 1))
      rw [digitsValue_naturalChars] at written
      exact written

private theorem numberChars_written (value : Number) : NumberText value (numberChars value) := by
  cases value with
  | integer value =>
      obtain ⟨minus, sign, signed, written, same, nonzero⟩ := integerChars_signed value
      have parts := NumberText.parts signed (whole_naturalChars value.natAbs) .absent .absent
      simp only [numberOfParts, Option.getD_none, List.append_nil, digitsValue_naturalChars,
        Option.isNone_none, true_and, nonzero, not_false_eq_true, if_true, ← same,
        ← written] at parts
      exact parts
  | scaled mantissa exponent =>
      obtain ⟨minus, sign, signed, written, same, nonzero⟩ := integerChars_signed mantissa
      have parts := NumberText.parts signed (whole_naturalChars mantissa.natAbs) .absent
        (exponent_written exponent)
      simp only [numberOfParts, Option.getD_none, Option.getD_some, List.append_nil,
        List.nil_append, digitsValue_naturalChars, Option.isNone_some, Bool.false_eq_true,
        false_and, and_false, if_false, List.length_nil, Int.natCast_zero, Int.sub_zero, ← same,
        ← List.append_assoc sign, ← written] at parts
      exact parts

/-! ## Values -/

private theorem blanks_indent (level : Nat) : Blanks (indent level) := by
  intro c there
  rw [List.eq_of_mem_replicate there]
  decide

theorem blanks_newLine (level : Nat) : Blanks ('\n' :: indent level) := by
  intro c there
  rcases List.mem_cons.mp there with rfl | there
  · decide
  · exact blanks_indent level c there

theorem blanks_nil : Blanks [] := by simp [Blanks]

private theorem blanks_space : Blanks [' '] := by simp [Blanks]

mutual

theorem prettyChars_written (level : Nat) : ∀ value, ValueText value (prettyChars level value)
  | .null => by rw [prettyChars]; exact .null
  | .bool true => by rw [prettyChars]; exact .yes
  | .bool false => by rw [prettyChars]; exact .no
  | .number value => by rw [prettyChars]; exact .number (numberChars_written value)
  | .string literal => by rw [prettyChars]; exact .string (literalChars_written literal)
  | .array [] => by rw [prettyChars]; exact (ValueText.emptyArray blanks_nil :)
  | .array (value :: rest) => by
      have listed := prettyElements_written (level + 1) level (value :: rest) (List.cons_ne_nil _ _)
      have written := ValueText.array listed
      simpa only [prettyChars, List.cons_append, List.append_assoc] using written
  | .object [] => by rw [prettyChars]; exact (ValueText.emptyObject blanks_nil :)
  | .object (entry :: rest) => by
      have listed := prettyMembers_written (level + 1) level (entry :: rest) (List.cons_ne_nil _ _)
      have written := ValueText.object listed
      simpa only [prettyChars, List.cons_append, List.append_assoc] using written

theorem prettyElements_written (level outer : Nat) : ∀ values, values ≠ [] →
    ElementsText values ('\n' :: (prettyElements level values ++ '\n' :: indent outer))
  | [], nonempty => absurd rfl nonempty
  | [value], _ => by
      have written := prettyChars_written level value
      have last := DocumentText.padded (blanks_newLine level) written (blanks_newLine outer)
      simpa only [prettyElements, List.cons_append, List.append_assoc] using ElementsText.last last
  | value :: next :: rest, _ => by
      have written := prettyChars_written level value
      have first := DocumentText.padded (blanks_newLine level) written blanks_nil
      have listed := prettyElements_written level outer (next :: rest) (List.cons_ne_nil _ _)
      simpa only [prettyElements, List.cons_append, List.append_assoc, List.append_nil] using
        ElementsText.more first listed

theorem prettyMembers_written (level outer : Nat) : ∀ members, members ≠ [] →
    MembersText members ('\n' :: (prettyMembers level members ++ '\n' :: indent outer))
  | [], nonempty => absurd rfl nonempty
  | [(key, value)], _ => by
      have written := prettyChars_written level value
      have named := KeyText.padded (blanks_newLine level) (literalChars_written key) blanks_nil
      have last := DocumentText.padded blanks_space written (blanks_newLine outer)
      simpa only [prettyMembers, List.cons_append, List.append_assoc, List.append_nil,
        List.nil_append] using MembersText.last named last
  | (key, value) :: next :: rest, _ => by
      have written := prettyChars_written level value
      have named := KeyText.padded (blanks_newLine level) (literalChars_written key) blanks_nil
      have first := DocumentText.padded blanks_space written blanks_nil
      have listed := prettyMembers_written level outer (next :: rest) (List.cons_ne_nil _ _)
      simpa only [prettyMembers, List.cons_append, List.append_assoc, List.append_nil,
        List.nil_append] using MembersText.more named first listed

end

/-- A printed value and a line end are a document, and the reader takes it for the value. -/
theorem pretty_document (value : Json) : DocumentText value (value.pretty ++ "\n").toList := by
  have lineEnd : Blanks ['\n'] := by simp [Blanks]
  rw [String.toList_append, pretty, String.toList_ofList]
  exact .padded blanks_nil (prettyChars_written 0 value) lineEnd

theorem parse?_pretty (value : Json) : parse? (value.pretty ++ "\n") = some value :=
  parseChars?_document (pretty_document value)

end MemberGraph.Json
