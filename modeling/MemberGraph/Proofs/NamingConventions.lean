import MemberGraph.Convention
import Mathlib.Data.List.Basic

/-!
Which names follow the naming conventions, told without the matchers. The name of an accessor is taken
apart at a mark: in front of the mark stands a qualifier, which is empty or ends in a dot, and behind
it something that is not empty. Of several such marks the last one counts.
-/

set_option autoImplicit false

namespace MemberGraph.Convention

/-! ## Marks -/

/-- Whether a qualifier may be what it is: it ends in a dot, or is empty where one may be. -/
def mayQualify (fresh : Bool) (qualifier : List Char) : Bool :=
  qualifier.getLast?.elim fresh (· == '.')

theorem mayQualify_cons (fresh : Bool) (c : Char) (qualifier : List Char) :
    mayQualify fresh (c :: qualifier) = mayQualify (c == '.') qualifier := by
  cases qualifier with
  | nil => rfl
  | cons next rest => simp [mayQualify, List.getLast?_cons]

structure SplitsAt (mark : List Char) (fresh : Bool) (name qualifier rest : List Char) : Prop where
  whole : name = qualifier ++ (mark ++ rest)
  qualifies : mayQualify fresh qualifier
  marked : rest ≠ []

/-- No other way to take the name apart leaves a longer qualifier. -/
def IsLongest (mark : List Char) (fresh : Bool) (name qualifier : List Char) : Prop :=
  ∀ other rest, SplitsAt mark fresh name other rest → other.length ≤ qualifier.length

section Marks

variable {mark : List Char} {fresh : Bool}

theorem afterMark?_eq_some_iff {input rest : List Char} :
    afterMark? mark input = some rest ↔ input = mark ++ rest ∧ rest ≠ [] := by
  rw [afterMark?, Option.ite_none_right_eq_some, Option.some.injEq]
  constructor
  · rintro ⟨⟨starts, longer⟩, rfl⟩
    obtain ⟨tail, rfl⟩ := List.isPrefixOf_iff_prefix.mp starts
    have some : tail ≠ [] := by
      rintro rfl
      simp at longer
    simpa using some
  · rintro ⟨rfl, some⟩
    have longer := List.length_pos_iff.mpr some
    refine ⟨⟨List.isPrefixOf_iff_prefix.mpr (List.prefix_append ..), ?_⟩, List.drop_left ..⟩
    rw [List.length_append]
    omega

theorem splitsAt_cons_iff {c : Char} {name qualifier rest : List Char} :
    SplitsAt mark fresh (c :: name) qualifier rest ↔
      (qualifier = [] ∧ fresh ∧ c :: name = mark ++ rest ∧ rest ≠ []) ∨
        ∃ further, qualifier = c :: further ∧ SplitsAt mark (c == '.') name further rest := by
  constructor
  · rintro ⟨whole, qualifies, marked⟩
    cases qualifier with
    | nil => exact .inl ⟨rfl, qualifies, whole, marked⟩
    | cons first further =>
        obtain ⟨rfl, tail⟩ := List.cons.inj whole
        rw [mayQualify_cons] at qualifies
        exact .inr ⟨further, rfl, tail, qualifies, marked⟩
  · rintro (⟨rfl, isFresh, whole, marked⟩ | ⟨further, rfl, rfl, qualifies, marked⟩)
    · exact ⟨whole, isFresh, marked⟩
    · exact ⟨rfl, by rwa [mayQualify_cons], marked⟩

theorem dropMark?_eq_none_iff {name : List Char} :
    dropMark? mark fresh name = none ↔ ∀ qualifier rest, ¬SplitsAt mark fresh name qualifier rest := by
  induction name generalizing fresh with
  | nil =>
      refine iff_of_true rfl fun qualifier rest split => split.marked ?_
      have empty := split.whole
      simp_all
  | cons c name ih =>
      rw [dropMark?]
      cases further : dropMark? mark (c == '.') name with
      | some found =>
          refine iff_of_false (Option.some_ne_none _) fun none => ?_
          have refused := ih.mpr fun qualifier rest split =>
            none (c :: qualifier) rest (splitsAt_cons_iff.mpr (.inr ⟨qualifier, rfl, split⟩))
          rw [further] at refused
          cases refused
      | none =>
          have refused := ih.mp further
          have atFront : (if fresh then afterMark? mark (c :: name) else none) = none ↔
              ∀ rest, ¬(fresh ∧ c :: name = mark ++ rest ∧ rest ≠ []) := by
            simp only [Option.eq_none_iff_forall_ne_some, ne_eq, Option.ite_none_right_eq_some,
              afterMark?_eq_some_iff]
          dsimp only
          rw [atFront]
          constructor
          · intro none qualifier rest split
            rcases splitsAt_cons_iff.mp split with ⟨_, here⟩ | ⟨further, _, there⟩
            · exact none rest here
            · exact refused further rest there
          · intro none rest here
            exact none [] rest (splitsAt_cons_iff.mpr (.inl ⟨rfl, here⟩))

/-- What is left when the mark is dropped comes from the split with the longest qualifier. -/
theorem longest_of_dropMark? {name found : List Char}
    (dropped : dropMark? mark fresh name = some found) :
    ∃ qualifier rest, SplitsAt mark fresh name qualifier rest ∧
      IsLongest mark fresh name qualifier ∧ found = qualifier ++ rest := by
  induction name generalizing fresh found with
  | nil => cases dropped
  | cons c name ih =>
      rw [dropMark?] at dropped
      cases further : dropMark? mark (c == '.') name with
      | some tail =>
          rw [further] at dropped
          cases dropped
          obtain ⟨qualifier, rest, split, longest, rfl⟩ := ih further
          refine ⟨c :: qualifier, rest, splitsAt_cons_iff.mpr (.inr ⟨qualifier, rfl, split⟩), ?_, rfl⟩
          intro other behind splitToo
          rcases splitsAt_cons_iff.mp splitToo with ⟨rfl, _⟩ | ⟨shorter, rfl, there⟩
          · exact Nat.zero_le _
          · exact Nat.succ_le_succ (longest shorter behind there)
      | none =>
          rw [further] at dropped
          obtain ⟨isFresh, here⟩ := Option.ite_none_right_eq_some.mp dropped
          obtain ⟨whole, marked⟩ := afterMark?_eq_some_iff.mp here
          refine ⟨[], found, ⟨whole, isFresh, marked⟩, ?_, rfl⟩
          intro other behind splitToo
          rcases splitsAt_cons_iff.mp splitToo with ⟨rfl, _⟩ | ⟨shorter, _, there⟩
          · exact Nat.le_refl _
          · exact absurd there (dropMark?_eq_none_iff.mp further shorter behind)

theorem dropMark?_eq_some_iff {name found : List Char} :
    dropMark? mark fresh name = some found ↔
      ∃ qualifier rest, SplitsAt mark fresh name qualifier rest ∧
        IsLongest mark fresh name qualifier ∧ found = qualifier ++ rest := by
  refine ⟨longest_of_dropMark?, ?_⟩
  rintro ⟨qualifier, rest, split, longest, rfl⟩
  cases dropped : dropMark? mark fresh name with
  | none => exact absurd split (dropMark?_eq_none_iff.mp dropped qualifier rest)
  | some other =>
      obtain ⟨qualifierToo, restToo, splitToo, longestToo, rfl⟩ := longest_of_dropMark? dropped
      have length : qualifierToo.length = qualifier.length :=
        Nat.le_antisymm (longest _ _ splitToo) (longestToo _ _ split)
      obtain ⟨rfl, behind⟩ := List.append_inj (splitToo.whole.symm.trans split.whole) length
      rw [List.append_cancel_left behind]

end Marks

/-! ## Names of accessors -/

def mark? : Convention → Option String
  | getter => some "get_"
  | setter => some "set_"
  | field => none

def OneLine (text : String) : Prop := '\n' ∉ text.toList

/-- What may stand in front of the mark of an accessor: nothing, or a text that ends in a dot. -/
def IsQualifier (text : String) : Prop := text = "" ∨ ∃ front, text = front ++ "."

/-- A name that consists of a qualifier, a mark and something marked. -/
structure Marks (mark name qualifier rest : String) : Prop where
  whole : name = qualifier ++ mark ++ rest
  qualifies : IsQualifier qualifier
  marked : rest ≠ ""

/-- A name that is marked behind the longest qualifier possible. -/
def MarksLast (mark name qualifier rest : String) : Prop :=
  Marks mark name qualifier rest ∧
    ∀ other further, Marks mark name other further → other.length ≤ qualifier.length

theorem isQualifier_iff {text : String} : IsQualifier text ↔ mayQualify true text.toList := by
  unfold IsQualifier mayQualify
  constructor
  · rintro (rfl | ⟨front, rfl⟩)
    · rfl
    · simp
  · intro ends
    cases last : text.toList.getLast? with
    | none => exact .inl (by simpa using last)
    | some c =>
        rw [last] at ends
        obtain ⟨front, whole⟩ := List.getLast?_eq_some_iff.mp last
        refine .inr ⟨String.ofList front, String.toList_inj.mp ?_⟩
        have dot : c = '.' := by simpa using ends
        rw [whole, dot]
        simp

theorem marks_iff {mark name qualifier rest : String} :
    Marks mark name qualifier rest ↔
      SplitsAt mark.toList true name.toList qualifier.toList rest.toList := by
  constructor
  · rintro ⟨rfl, qualifies, marked⟩
    exact ⟨by simp, isQualifier_iff.mp qualifies, by simpa using marked⟩
  · rintro ⟨whole, qualifies, marked⟩
    exact ⟨String.toList_inj.mp (by simpa using whole), isQualifier_iff.mpr qualifies,
      by simpa using marked⟩

theorem marksLast_iff {mark name qualifier rest : String} :
    MarksLast mark name qualifier rest ↔
      SplitsAt mark.toList true name.toList qualifier.toList rest.toList ∧
        IsLongest mark.toList true name.toList qualifier.toList := by
  rw [MarksLast, marks_iff]
  refine and_congr_right fun _ => ⟨fun longest other further split => ?_, ?_⟩
  · have marks : Marks mark name (String.ofList other) (String.ofList further) :=
      marks_iff.mpr (by simpa using split)
    simpa [String.length_toList] using longest _ _ marks
  · intro longest other further marks
    simpa [String.length_toList] using longest _ _ (marks_iff.mp marks)

private theorem property?_of_mark {accessor : Convention} {mark : String}
    (named : accessor.mark? = some mark) (name : String) :
    accessor.property? name = (accessorProperty? mark.toList name.toList).map String.ofList := by
  cases accessor <;> cases named <;> rfl

section Accessors

variable {accessor : Convention} {mark : String} (named : accessor.mark? = some mark)
include named

private theorem property?_eq_some_iff_marksLast {name found : String} :
    accessor.property? name = some found ↔
      OneLine name ∧ ∃ qualifier rest, MarksLast mark name qualifier rest ∧
        found = qualifier ++ rest := by
  rw [property?_of_mark named, Option.map_eq_some_iff, OneLine]
  simp only [accessorProperty?, Option.ite_none_left_eq_some, dropMark?_eq_some_iff, marksLast_iff]
  constructor
  · rintro ⟨_, ⟨oneLine, qualifier, rest, split, longest, rfl⟩, rfl⟩
    refine ⟨oneLine, String.ofList qualifier, String.ofList rest, ?_, by simp⟩
    simpa using ⟨split, longest⟩
  · rintro ⟨oneLine, qualifier, rest, ⟨split, longest⟩, rfl⟩
    exact ⟨_, ⟨oneLine, qualifier.toList, rest.toList, split, longest, rfl⟩, by simp⟩

private theorem property?_isSome_iff_marks {name : String} :
    (accessor.property? name).isSome ↔
      OneLine name ∧ ∃ qualifier rest, Marks mark name qualifier rest := by
  rw [← not_iff_not, Bool.not_eq_true, Option.isSome_eq_false_iff, Option.isNone_iff_eq_none,
    property?_of_mark named, Option.map_eq_none_iff, accessorProperty?, OneLine, not_and_or, not_not]
  split
  · next broken => simp [broken]
  · next oneLine =>
      rw [dropMark?_eq_none_iff]
      simp only [oneLine, false_or, not_exists]
      constructor
      · intro none qualifier rest marks
        exact none _ _ (marks_iff.mp marks)
      · intro none qualifier rest split
        exact none (String.ofList qualifier) (String.ofList rest)
          (marks_iff.mpr (by simpa using split))

end Accessors

/-- A dot with the mark and something further stands in a name, so that the name could be taken apart
there as well. -/
def HoldsMark (mark name : String) : Prop :=
  ∃ before after, name = before ++ "." ++ mark ++ after ∧ after ≠ ""

/-- If a name is taken apart behind a longer qualifier than the one given, the mark stands again in
what is marked. -/
theorem SplitsAt.remarked {mark qualifier name other further : List Char} (plain : '.' ∉ mark)
    (split : SplitsAt mark true (qualifier ++ (mark ++ name)) other further)
    (longer : qualifier.length < other.length) :
    ∃ before, name = before ++ '.' :: (mark ++ further) := by
  have starts : other <+: qualifier ++ (mark ++ name) := ⟨_, split.whole.symm⟩
  obtain ⟨added, rfl⟩ := List.prefix_of_prefix_length_le (List.prefix_append qualifier _) starts
    (Nat.le_of_lt longer)
  have behind : mark ++ name = added ++ (mark ++ further) := by simpa using split.whole
  have dotted : added.getLast? = some '.' := by
    have ends := split.qualifies
    cases last : added.getLast? with
    | none =>
        rw [List.getLast?_eq_none_iff.mp last] at longer
        simp at longer
    | some c => simpa [mayQualify, List.getLast?_append, last] using ends
  obtain ⟨front, rfl⟩ := List.getLast?_eq_some_iff.mp dotted
  rw [List.append_assoc, List.singleton_append] at behind
  -- The dot is not in the mark, so it stands behind it.
  rcases List.append_eq_append_iff.mp behind with ⟨before, rfl, same⟩ | ⟨between, rfl, same⟩
  · exact ⟨before, same⟩
  · cases between with
    | nil => exact ⟨[], by simpa using same.symm⟩
    | cons c rest =>
        obtain ⟨rfl, _⟩ := List.cons.inj same
        simp at plain

private theorem marksLast_of_plain {accessor : Convention} {mark qualifier name : String}
    (named : accessor.mark? = some mark) (qualifies : IsQualifier qualifier) (marked : name ≠ "")
    (once : ¬HoldsMark mark name) : MarksLast mark (qualifier ++ mark ++ name) qualifier name := by
  have plain : '.' ∉ mark.toList := by
    cases accessor <;> cases named <;> decide
  refine ⟨⟨rfl, qualifies, marked⟩, fun other further marks => ?_⟩
  by_contra longer
  have split := marks_iff.mp marks
  rw [String.toList_append, String.toList_append, List.append_assoc] at split
  obtain ⟨before, whole⟩ := split.remarked plain (by simpa [String.length_toList] using longer)
  refine once ⟨String.ofList before, further, String.toList_inj.mp ?_, marks.marked⟩
  simpa using whole

/-! ## Names of fields -/

def IsLetter (c : Char) : Prop := ('A' ≤ c ∧ c ≤ 'Z') ∨ ('a' ≤ c ∧ c ≤ 'z')

structure NamesStorage (name property : String) : Prop where
  whole : name = "<" ++ property ++ ">k__BackingField"
  named : property ≠ ""
  oneLine : OneLine property

/-- The name of a field that is written by hand for a property: a lead, a letter and a word, where the
property has the letter in upper case. -/
def NamesPrefixed (name property : String) : Prop :=
  ∃ lead letter rest, (lead = "m_" ∨ lead = "_") ∧ IsLetter letter ∧
    (∀ c ∈ rest.toList, Text.isWordChar c) ∧ name = lead ++ String.singleton letter ++ rest ∧
    property = String.singleton letter.toUpper ++ rest

theorem isLetter_iff {c : Char} : IsLetter c ↔ c.isAlpha := by
  delta Char.isAlpha Char.isUpper Char.isLower
  simp only [IsLetter, Char.le_def, Bool.or_eq_true, Bool.and_eq_true, decide_eq_true_eq, ge_iff_le]

theorem storageProperty?_eq_some_iff {name property : List Char} :
    storageProperty? name = some property ↔
      name = '<' :: (property ++ storageSuffix) ∧ property ≠ [] ∧ '\n' ∉ property := by
  have taken : ∀ front : List Char, (front ++ storageSuffix).take
      ((front ++ storageSuffix).length - storageSuffix.length) = front := by simp
  unfold storageProperty?
  split
  · next rest =>
      rw [Option.ite_none_right_eq_some, Option.some.injEq]
      constructor
      · rintro ⟨⟨ends, named, oneLine⟩, rfl⟩
        obtain ⟨front, rfl⟩ := List.isSuffixOf_iff_suffix.mp ends
        rw [taken front] at named oneLine ⊢
        exact ⟨rfl, by simpa using named, oneLine⟩
      · rintro ⟨whole, named, oneLine⟩
        obtain ⟨_, rfl⟩ := List.cons.inj whole
        rw [taken property]
        exact ⟨⟨List.isSuffixOf_iff_suffix.mpr (List.suffix_append ..), by simpa using named, oneLine⟩,
          rfl⟩
  · next other =>
      refine iff_of_false (fun none => by cases none) ?_
      rintro ⟨rfl, _⟩
      exact other _ rfl

theorem capitalised?_eq_some_iff {name property : List Char} :
    capitalised? name = some property ↔ ∃ letter rest, name = letter :: rest ∧ IsLetter letter ∧
      (∀ c ∈ rest, Text.isWordChar c) ∧ property = letter.toUpper :: rest := by
  cases name with
  | nil => simp [capitalised?]
  | cons letter rest =>
      rw [capitalised?, Option.ite_none_right_eq_some, Option.some.injEq, List.all_eq_true,
        ← isLetter_iff]
      constructor
      · rintro ⟨⟨isLetter, word⟩, rfl⟩
        exact ⟨letter, rest, rfl, isLetter, word, rfl⟩
      · rintro ⟨_, _, same, isLetter, word, rfl⟩
        cases same
        exact ⟨⟨isLetter, word⟩, rfl⟩

theorem prefixedProperty?_eq_some_iff {name property : List Char} :
    prefixedProperty? name = some property ↔ ∃ lead rest, (lead = "m_".toList ∨ lead = "_".toList) ∧
      name = lead ++ rest ∧ capitalised? rest = some property := by
  unfold prefixedProperty?
  split
  · next rest =>
      constructor
      · exact fun found => ⟨_, rest, .inl rfl, rfl, found⟩
      · rintro ⟨lead, others, rfl | rfl, same, found⟩ <;> cases same
        exact found
  · next rest =>
      constructor
      · exact fun found => ⟨_, rest, .inr rfl, rfl, found⟩
      · rintro ⟨lead, others, rfl | rfl, same, found⟩ <;> cases same
        exact found
  · next notFirst notSecond =>
      refine iff_of_false (fun none => by cases none) ?_
      rintro ⟨lead, others, rfl | rfl, rfl, _⟩
      · exact notFirst others rfl
      · exact notSecond others rfl

theorem field_property?_eq_some_iff {name property : String} :
    field.property? name = some property ↔
      NamesStorage name property ∨ NamesPrefixed name property := by
  have suffix : storageSuffix = ">k__BackingField".toList := rfl
  rw [property?, Option.map_eq_some_iff]
  simp only [propertyChars?, Option.or_eq_some_iff]
  constructor
  · rintro ⟨chars, stored | ⟨_, written⟩, rfl⟩
    · obtain ⟨whole, named, oneLine⟩ := storageProperty?_eq_some_iff.mp stored
      refine .inl ⟨String.toList_inj.mp ?_, by simpa using named, by simpa [OneLine] using oneLine⟩
      rw [whole, suffix]
      simp
    · obtain ⟨lead, rest, leads, whole, capital⟩ := prefixedProperty?_eq_some_iff.mp written
      obtain ⟨letter, word, rfl, isLetter, isWord, rfl⟩ := capitalised?_eq_some_iff.mp capital
      refine .inr ⟨String.ofList lead, letter, String.ofList word, ?_, isLetter, by simpa using isWord,
        String.toList_inj.mp (by simpa using whole), String.toList_inj.mp (by simp)⟩
      exact leads.imp (by rintro rfl; simp) (by rintro rfl; simp)
  · rintro (⟨rfl, named, oneLine⟩ | ⟨lead, letter, word, leads, isLetter, isWord, rfl, rfl⟩)
    · refine ⟨property.toList, .inl (storageProperty?_eq_some_iff.mpr ?_), by simp⟩
      exact ⟨by simp [suffix], by simpa using named, oneLine⟩
    · have capital : capitalised? (letter :: word.toList) = some (letter.toUpper :: word.toList) :=
        capitalised?_eq_some_iff.mpr ⟨letter, _, rfl, isLetter, isWord, rfl⟩
      have written : prefixedProperty? (lead.toList ++ letter :: word.toList) =
          some (letter.toUpper :: word.toList) := by
        refine prefixedProperty?_eq_some_iff.mpr ⟨_, _, ?_, rfl, capital⟩
        exact leads.imp (congrArg String.toList) (congrArg String.toList)
      refine ⟨_, .inr ⟨?_, by simpa using written⟩, String.toList_inj.mp (by simp)⟩
      rcases leads with rfl | rfl <;> simp [storageProperty?]

/-- The matchers accept exactly the names that follow their convention, and give the property that the
convention names. Of an accessor the mark is dropped, the last one if there are several; so it can be
put in front of any name that does not hold the mark itself. -/
theorem matchers_follow_conventions :
    (∀ accessor mark, mark? accessor = some mark →
      (∀ name, (accessor.property? name).isSome ↔
        OneLine name ∧ ∃ qualifier rest, Marks mark name qualifier rest) ∧
      (∀ name property, accessor.property? name = some property ↔
        OneLine name ∧ ∃ qualifier rest, MarksLast mark name qualifier rest ∧
          property = qualifier ++ rest) ∧
      ∀ qualifier name, IsQualifier qualifier → name ≠ "" → OneLine qualifier → OneLine name →
        ¬HoldsMark mark name →
          accessor.property? (qualifier ++ mark ++ name) = some (qualifier ++ name)) ∧
    ∀ name property, field.property? name = some property ↔
      NamesStorage name property ∨ NamesPrefixed name property := by
  refine ⟨fun accessor mark named => ⟨fun name => property?_isSome_iff_marks named,
    fun name property => property?_eq_some_iff_marksLast named, ?_⟩,
    fun name property => field_property?_eq_some_iff⟩
  intro qualifier name qualifies marked oneLine alsoOneLine once
  refine (property?_eq_some_iff_marksLast named).mpr ⟨?_, qualifier, name,
    marksLast_of_plain named qualifies marked once, rfl⟩
  have markOneLine : '\n' ∉ mark.toList := by
    cases accessor <;> cases named <;> decide
  simpa [OneLine, markOneLine] using ⟨oneLine, alsoOneLine⟩

/-- The getter of a property that an interface names, with the mark once more in the qualifier; a field
whose name goes on beyond ASCII; and one whose name starts there. -/
theorem matchers_follow_conventions_qualified :
    IsQualifier "Shop.get_ICart." ∧ ¬HoldsMark "get_" "Total" ∧
      getter.property? ("Shop.get_ICart." ++ "get_" ++ "Total") =
        some ("Shop.get_ICart." ++ "Total") ∧
      field.property? "m_größe" = some "Größe" ∧ field.property? "m_ähre" = none ∧
      ∀ property, ¬NamesPrefixed "m_ähre" property := by
  have qualifies : IsQualifier "Shop.get_ICart." := .inr ⟨"Shop.get_ICart", rfl⟩
  have once : ¬HoldsMark "get_" "Total" := by
    rintro ⟨before, after, whole, _⟩
    have dotted : '.' ∈ "Total".toList := by simp [whole]
    exact absurd dotted (by decide)
  have word : "röße".toList.all Text.isWordChar = true := by decide +kernel
  have prefixed : NamesPrefixed "m_größe" "Größe" :=
    ⟨"m_", 'g', "röße", .inl rfl, .inr (by decide), List.all_eq_true.mp word, rfl, rfl⟩
  have refused : field.property? "m_ähre" = none := by decide +kernel
  obtain ⟨accessors, fields⟩ := matchers_follow_conventions
  refine ⟨qualifies, once, (accessors getter "get_" rfl).2.2 _ _ qualifies (by decide) ?_ ?_ once,
    (fields _ _).mpr (.inr prefixed), refused, fun property named => ?_⟩
  · unfold OneLine
    decide
  · unfold OneLine
    decide
  · rw [(fields _ _).mpr (.inr named)] at refused
    cases refused

end MemberGraph.Convention
