import MemberGraph.FullName
import Mathlib.Data.List.Infix

/-!
Full names of members are taken apart as they were put together. The member's name is looked for from
the right, behind the last double colon, and the path from the left, in front of the first parenthesis.
A type may hold double colons and a parameter parentheses. So each search needs the part that it comes
through first to be free of its mark, and then both find the same member.
-/

set_option autoImplicit false

namespace MemberGraph

/-! ## The last double colon -/

theorem colons_infix_cons_iff {c : Char} {rest : List Char} :
    [':', ':'] <:+: c :: rest ↔ (c = ':' ∧ rest.head? = some ':') ∨ [':', ':'] <:+: rest := by
  rw [List.infix_cons_iff, List.cons_prefix_cons, eq_comm]
  cases rest with
  | nil => simp
  | cons next rest => simp [eq_comm]

theorem not_colons_cons {c : Char} {rest : List Char} (noneBehind : ¬[':', ':'] <:+: rest)
    (apart : ¬(c = ':' ∧ rest.head? = some ':')) : ¬[':', ':'] <:+: c :: rest := by
  intro colons
  rcases colons_infix_cons_iff.mp colons with here | behind
  · exact apart here
  · exact noneBehind behind

theorem not_colons_append {before after : List Char} (noneBefore : ¬[':', ':'] <:+: before)
    (noneAfter : ¬[':', ':'] <:+: after) (apart : after.head? ≠ some ':') :
    ¬[':', ':'] <:+: before ++ after := by
  induction before with
  | nil => exact noneAfter
  | cons c before ih =>
      have noneBehind := ih fun behind => noneBefore (colons_infix_cons_iff.mpr (.inr behind))
      refine not_colons_cons noneBehind fun here => ?_
      cases before with
      | nil => exact apart here.2
      | cons next before => exact noneBefore (colons_infix_cons_iff.mpr (.inl here))

theorem afterColons_eq_none_iff {text : List Char} :
    afterColons text = none ↔ ¬[':', ':'] <:+: text := by
  fun_induction afterColons text with
  | case1 => simp
  | case2 c rest after found ih =>
      rw [found] at ih
      simp only [reduceCtorEq, false_iff, not_not] at ih
      simp [colons_infix_cons_iff, ih]
  | case3 after none ih => simp [colons_infix_cons_iff]
  | case4 c rest none notColons ih =>
      refine iff_of_true rfl (not_colons_cons (ih.mp none) fun here => ?_)
      obtain ⟨after, colon⟩ := List.head?_eq_some_iff.mp here.2
      exact notColons after here.1 colon

/-- The colon in front of what follows counts: of three colons the last two are found. -/
theorem afterColons_append (front : List Char) {after : List Char}
    (last : ¬[':', ':'] <:+: ':' :: after) :
    afterColons (front ++ ':' :: ':' :: after) = some after := by
  induction front with
  | nil => rw [List.nil_append, afterColons, afterColons_eq_none_iff.mpr last]
  | cons c front ih => simp [afterColons, ih]

namespace FullName

private theorem not_colons_commaSeparated {names : List String}
    (plain : ∀ name ∈ names, ¬[':', ':'] <:+: name.toList) :
    ¬[':', ':'] <:+: (commaSeparated names).toList := by
  induction names with
  | nil => simp [commaSeparated]
  | cons name rest ih =>
      rw [List.forall_mem_cons] at plain
      cases rest with
      | nil => exact plain.1
      | cons next rest =>
          have behind : ¬[':', ':'] <:+: ',' :: (commaSeparated (next :: rest)).toList :=
            not_colons_cons (ih plain.2) (by simp)
          have joined := not_colons_append plain.1 behind (by simp)
          simpa [commaSeparated] using joined

/-! ## Paths -/

theorem all_ne_of_not_mem {mark : Char} {text : List Char} (absent : mark ∉ text) :
    ∀ c ∈ text, decide (c ≠ mark) := by
  intro c there
  exact decide_eq_true fun same => absent (same ▸ there)

theorem beforeParameters_append {path rest : List Char} (unopened : '(' ∉ path)
    (opened : ∀ c ∈ rest.head?, c = '(') : beforeParameters (path ++ rest) = path := by
  rw [beforeParameters, List.takeWhile_append_of_pos (all_ne_of_not_mem unopened)]
  cases rest with
  | nil => simp
  | cons c rest =>
      have same : c = '(' := opened c rfl
      simp [same]

/-- What may stand in front of a segment: nothing, or a text that ends in a dot or a colon. -/
def OpensSegment (front : String) : Prop :=
  front = "" ∨ ∃ before, front = before ++ "." ∨ front = before ++ ":"

theorem atBoundary_iff {front : String} : atBoundary front.toList ↔ OpensSegment front := by
  unfold atBoundary OpensSegment
  constructor
  · intro boundary
    cases last : front.toList.getLast? with
    | none => exact .inl (by simpa using last)
    | some c =>
        obtain ⟨before, whole⟩ := List.getLast?_eq_some_iff.mp last
        have ended : front = String.ofList before ++ String.singleton c :=
          String.toList_inj.mp (by simpa using whole)
        rw [last] at boundary
        have marks : c = '.' ∨ c = ':' := by simpa using boundary
        rcases marks with rfl | rfl
        · exact .inr ⟨String.ofList before, .inl ended⟩
        · exact .inr ⟨String.ofList before, .inr ended⟩
  · rintro (rfl | ⟨before, rfl | rfl⟩) <;> simp

private theorem opensSegment_append_singleton {front : String} {c : Char} :
    OpensSegment (front ++ String.singleton c) ↔ c = '.' ∨ c = ':' := by
  rw [← atBoundary_iff]
  simp [atBoundary]

theorem endsInSegment_iff {fullName suffix path : String} (given : suffix ≠ "")
    (cut : beforeParameters fullName.toList = path.toList) :
    endsInSegment fullName suffix ↔ ∃ front, path = front ++ suffix ∧ OpensSegment front := by
  unfold endsInSegment
  rw [cut]
  simp only [Bool.and_eq_true, Bool.not_eq_true', List.isSuffixOf_iff_suffix]
  constructor
  · rintro ⟨⟨_, front, whole⟩, boundary⟩
    have inFront : path.toList.take (path.toList.length - suffix.toList.length) = front := by
      simp [← whole]
    rw [inFront] at boundary
    refine ⟨String.ofList front, String.toList_inj.mp (by simp [whole]), ?_⟩
    exact atBoundary_iff.mp (by simpa using boundary)
  · rintro ⟨front, rfl, opens⟩
    refine ⟨⟨by simpa using given, front.toList, by simp⟩, ?_⟩
    simpa using atBoundary_iff.mpr opens

/-! ## Names of members -/

/-- The parts of a full name: the type, the member and the list of parameters. -/
structure Parts (fullName type name : String) (list : List Char) : Prop where
  whole : fullName.toList = type.toList ++ ':' :: ':' :: (name.toList ++ list)
  opened : ∀ c ∈ list.head?, c = '('
  plain : ¬[':', ':'] <:+: list

private theorem parts_ofMember (type name : String) : Parts (ofMember type name) type name [] where
  whole := by simp [ofMember]
  opened := by simp
  plain := by simp

private theorem parts_ofMethod (type name : String) {parameters : List String}
    (plain : ∀ parameter ∈ parameters, ¬[':', ':'] <:+: parameter.toList) :
    Parts (ofMethod type name parameters) type name
      ('(' :: ((commaSeparated parameters).toList ++ [')'])) where
  whole := by simp [ofMethod]
  opened := by simp
  plain := by
    have closed : ¬[':', ':'] <:+: (commaSeparated parameters).toList ++ [')'] :=
      not_colons_append (not_colons_commaSeparated plain) (by decide) (by simp)
    exact not_colons_cons closed (by simp)

namespace Parts

variable {fullName type name : String} {list : List Char} (parts : Parts fullName type name list)
include parts

theorem memberName (unopened : '(' ∉ name.toList) (single : ¬[':', ':'] <:+: name.toList)
    (unmarked : name.toList.head? ≠ some ':') : memberName fullName = name := by
  -- The second of the two colons must not make another pair with the name.
  have last : ¬[':', ':'] <:+: ':' :: (name.toList ++ list) := by
    have named : ¬[':', ':'] <:+: ':' :: name.toList :=
      not_colons_cons single fun colons => unmarked colons.2
    refine not_colons_append named parts.plain fun colon => ?_
    exact absurd (parts.opened ':' colon) (by decide)
  rw [FullName.memberName, parts.whole, afterColons_append _ last, Option.getD_some,
    beforeParameters_append unopened parts.opened, String.ofList_toList]

theorem beforeParameters (typeUnopened : '(' ∉ type.toList) (unopened : '(' ∉ name.toList) :
    beforeParameters fullName.toList = (type ++ "::" ++ name).toList := by
  have pathUnopened : '(' ∉ (type ++ "::" ++ name).toList := by
    simp [typeUnopened, unopened]
  have whole : fullName.toList = (type ++ "::" ++ name).toList ++ list := by
    simp [parts.whole]
  rw [whole]
  exact beforeParameters_append pathUnopened parts.opened

end Parts

/-- The two ways to look into a full name agree on what its member part is. The last double colon leads
to the member's name, and a suffix of the name is a segment exactly if one may start there. -/
theorem full_names_read_back (type name : String) (parameters : List String)
    (typeUnopened : '(' ∉ type.toList) (named : name ≠ "") (unopened : '(' ∉ name.toList)
    (single : ¬[':', ':'] <:+: name.toList) (unmarked : name.toList.head? ≠ some ':')
    (plain : ∀ parameter ∈ parameters, ¬[':', ':'] <:+: parameter.toList) :
    ∀ fullName ∈ [ofMember type name, ofMethod type name parameters],
      memberName fullName = name ∧
      (∀ suffix, suffix ≠ "" → (endsInSegment fullName suffix ↔
        ∃ front, type ++ "::" ++ name = front ++ suffix ∧ OpensSegment front)) ∧
      endsInSegment fullName name ∧
      (∀ front suffix, name = front ++ "." ++ suffix → suffix ≠ "" →
        endsInSegment fullName suffix) ∧
      ∀ front c suffix, name = front ++ String.singleton c ++ suffix → suffix ≠ "" →
        c ≠ '.' → c ≠ ':' → ¬endsInSegment fullName suffix := by
  intro fullName listed
  obtain ⟨list, parts⟩ : ∃ list, Parts fullName type name list := by
    rcases List.mem_pair.mp listed with rfl | rfl
    · exact ⟨_, parts_ofMember type name⟩
    · exact ⟨_, parts_ofMethod type name plain⟩
  have path := parts.beforeParameters typeUnopened unopened
  refine ⟨parts.memberName unopened single unmarked, fun suffix given => endsInSegment_iff given path,
    ?_, fun front suffix whole given => ?_, fun front c suffix whole given notDot notColon => ?_⟩
  · have colons : type ++ "::" = type ++ ":" ++ ":" := by rw [String.append_assoc]; rfl
    exact (endsInSegment_iff named path).mpr ⟨type ++ "::", rfl, .inr ⟨type ++ ":", .inr colons⟩⟩
  · refine (endsInSegment_iff given path).mpr ⟨type ++ "::" ++ front ++ ".", ?_, ?_⟩
    · simp [whole, String.append_assoc]
    · exact .inr ⟨_, .inl rfl⟩
  · rw [endsInSegment_iff given path]
    rintro ⟨before, split, opens⟩
    -- A suffix stands behind one text only, and that text ends in the character before it.
    have here : before = type ++ "::" ++ front ++ String.singleton c := by
      rw [whole, ← String.append_assoc, ← String.append_assoc] at split
      exact (String.append_left_inj _).mp split.symm
    rw [here, opensSegment_append_singleton] at opens
    exact opens.elim notDot notColon

/-- The type holds a double colon, and it ends in a colon like the last parameter. -/
theorem full_names_read_back_item :
    let type := "Shop.Cart::Line:"
    let name := "Shop.IList<A>.get_Item"
    let parameters := ["Map<A,B>", "Shop.Key:"]
    let fullName := ofMethod type name parameters
    '(' ∉ type.toList ∧ name ≠ "" ∧ '(' ∉ name.toList ∧ ¬[':', ':'] <:+: name.toList ∧
      name.toList.head? ≠ some ':' ∧
      (∀ parameter ∈ parameters, ¬[':', ':'] <:+: parameter.toList) ∧
      memberName fullName = name ∧ endsInSegment fullName "get_Item" ∧
      ¬endsInSegment fullName "Item" ∧ endsInSegment fullName "Line:::Shop.IList<A>.get_Item" := by
  intro type name parameters fullName
  have typeUnopened : '(' ∉ type.toList := by decide
  have unopened : '(' ∉ name.toList := by decide
  have single : ¬[':', ':'] <:+: name.toList := by decide
  have unmarked : name.toList.head? ≠ some ':' := by decide
  have plain : ∀ parameter ∈ parameters, ¬[':', ':'] <:+: parameter.toList := by decide
  obtain ⟨tail, segments, _, dotted, undotted⟩ := full_names_read_back type name parameters
    typeUnopened (by decide) unopened single unmarked plain fullName (by simp [fullName])
  refine ⟨typeUnopened, by decide, unopened, single, unmarked, plain, tail, ?_, ?_, ?_⟩
  · exact dotted "Shop.IList<A>" "get_Item" (by decide) (by decide)
  · exact undotted "Shop.IList<A>.get" '_' "Item" (by decide) (by decide) (by decide) (by decide)
  · refine (segments _ (by decide)).mpr ⟨"Shop.Cart::", by decide, .inr ⟨"Shop.Cart:", .inr ?_⟩⟩
    decide

end FullName

end MemberGraph
