import Fern.Proofs.Typing.Judgement

/-!
When the rules for types have nothing to complain of.

On operands that have a type, each verdict of the checker is free of a complaint exactly if the
corresponding rule of the judgement applies, and then it gives the type of that rule:
`ofBinary_accepts_iff`, `ofUnary_accepts_iff`, `ofReturn_accepts_iff`, `ofSubscript_accepts_iff`,
and the conditions that do not bear on the type.

* `PointsInto`: a complaint is about a place of a given sort. Every rule complains about the place
  that it is told (`pointsInto_ofBinary` and its companions).
-/

namespace Fern.Typing

variable {a b t : Ty} {l l' : Location}

lemma complainIf_eq_none {c : Bool} {p : Problem} {note : Option String} :
    complainIf c p l note = none ↔ c = false := by
  cases c <;> simp [complainIf]

lemma complainIf_eq_some_iff {c : Bool} {p : Problem} {note : Option String} {k : Complaint} :
    complainIf c p l note = some k ↔ c = true ∧ k = ⟨p, l, note⟩ := by
  cases c <;> simp [complainIf, eq_comm]

/-- The types with arithmetic are the two types of numbers. -/
lemma isNumeric_iff : t.isNumeric = true ↔ IsNumber t := by
  obtain ⟨base, depth⟩ := t
  simp only [Ty.isNumeric, IsNumber, Ty.int, Ty.float, Ty.mk.injEq, Bool.and_eq_true,
    Bool.or_eq_true, decide_eq_true_eq]
  tauto

/-- What an operator makes of valid operands is valid. -/
lemma BinaryRule.isInvalid_eq_false {operator : Token.Kind} (h : BinaryRule operator a t)
    (ha : a.isInvalid = false) : t.isInvalid = false := by
  cases h with
  | assignment => exact ha
  | comparison => rfl
  | arithmetic =>
      split
      · rfl
      · exact ha

/-- No operator belongs to two rules. -/
lemma isComparison_eq_false_of_isArithmetic {operator : Token.Kind}
    (h : isArithmetic operator = true) : isComparison operator = false := by
  cases operator <;> simp_all [isArithmetic, isComparison]

lemma not_assignment_of_isComparison {operator : Token.Kind} (h : isComparison operator = true) :
    ¬(operator = .equal ∨ operator = .colonEqual) := by
  rintro (rfl | rfl) <;> exact absurd h (by decide)

lemma not_assignment_of_isArithmetic {operator : Token.Kind} (h : isArithmetic operator = true) :
    ¬(operator = .equal ∨ operator = .colonEqual) := by
  rintro (rfl | rfl) <;> exact absurd h (by decide)

lemma ofBinary_accepts_iff (l : Location) {operator : Token.Kind} (target : String)
    (ha : a.isInvalid = false) (hb : b.isInvalid = false) :
    (ofBinary operator target a b l).complaint = none ∧
      t = (ofBinary operator target a b l).type ↔ a = b ∧ BinaryRule operator a t := by
  unfold ofBinary
  split_ifs with hassign hcomp harith
  · simp only [ofAssignment, complainIf_eq_none, ha, hb]
    constructor
    · rintro ⟨h, rfl⟩
      exact ⟨by simpa using h, .assignment hassign⟩
    · rintro ⟨rfl, h⟩
      cases h with
      | assignment => simp
      | comparison h => exact absurd hassign (not_assignment_of_isComparison h)
      | arithmetic h => exact absurd hassign (not_assignment_of_isArithmetic h)
  · simp only [ofComparison, complainIf_eq_none, ha, hb]
    constructor
    · rintro ⟨h, rfl⟩
      exact ⟨by simpa using h, .comparison hcomp⟩
    · rintro ⟨rfl, h⟩
      cases h with
      | assignment h => exact absurd h hassign
      | comparison => simp
      | arithmetic h => rw [isComparison_eq_false_of_isArithmetic h] at hcomp; cases hcomp
  · simp only [ofArithmetic, ha, hb, Bool.or_self, Bool.false_eq_true, if_false,
      complainIf_eq_none]
    constructor
    · rintro ⟨h, rfl⟩
      have hn : a.isNumeric = true ∧ a = b := by simpa using h
      exact ⟨hn.2, .arithmetic harith (isNumeric_iff.mp hn.1)⟩
    · rintro ⟨rfl, h⟩
      cases h with
      | assignment h => exact absurd h hassign
      | comparison h => exact absurd h hcomp
      | arithmetic _ number => simp [isNumeric_iff.mpr number]
  · constructor
    · rintro ⟨h, -⟩
      cases h
    · rintro ⟨-, h⟩
      cases h with
      | assignment h => exact absurd h hassign
      | comparison h => exact absurd h hcomp
      | arithmetic h => exact absurd h harith

lemma ofUnary_accepts_iff {operator : Token.Kind} (ha : a.isInvalid = false) :
    (ofUnary operator a l).complaint = none ∧ t = (ofUnary operator a l).type ↔
      t = a ∧ UnaryRule operator a := by
  simp only [ofUnary, ha, Bool.false_eq_true, if_false]
  split
  · by_cases hn : a.isNumeric = true
    · simp only [hn, if_true, Verdict.accept, true_and]
      exact ⟨fun h => ⟨h, .minus (isNumeric_iff.mp hn)⟩, fun h => h.1⟩
    · simp only [hn, if_false, Verdict.refuse, reduceCtorEq, false_and, false_iff]
      rintro ⟨-, h⟩
      cases h with
      | minus number => exact hn (isNumeric_iff.mpr number)
  · by_cases hn : a = .bool
    · subst hn
      simp only [if_true, Verdict.accept, true_and]
      exact ⟨fun h => ⟨h, .bang⟩, fun h => h.1⟩
    · simp only [hn, if_false, Verdict.refuse, reduceCtorEq, false_and, false_iff]
      rintro ⟨-, h⟩
      cases h with
      | bang => exact hn rfl
  · next hminus hbang =>
    simp only [Verdict.refuse, reduceCtorEq, false_and, false_iff]
    rintro ⟨-, h⟩
    cases h with
    | minus => exact hminus rfl
    | bang => exact hbang rfl

lemma ofReturn_accepts_iff {declared : Ty} (ha : a.isInvalid = false) :
    (ofReturn (some declared) a l).complaint = none ↔ a = declared := by
  simp [ofReturn, complainIf_eq_none, ha]

lemma ofSubscript_accepts_iff (l l' : Location) (ha : a.isInvalid = false)
    (hb : b.isInvalid = false) :
    (ofSubscript a b l l').complaint = none ∧ t = (ofSubscript a b l l').type ↔
      b = .int ∧ a.dereference = some t := by
  have hsome := a.dereference_isSome
  simp only [ofSubscript, ha, hb, Bool.or_self, Bool.false_eq_true, if_false]
  cases hi : a.isIndexable with
  | false =>
      have hnone : a.dereference = none := by simpa [hi] using hsome
      simp [Verdict.refuse, hnone]
  | true =>
      obtain ⟨u, hu⟩ := Option.isSome_iff_exists.mp (hsome.trans hi)
      by_cases hint : b = .int
      · simp [hint, hu, Verdict.accept, eq_comm]
      · simp [hint, Verdict.refuse]

/-- An element of what has a valid type has a valid type. -/
lemma isInvalid_of_dereference (ha : a.isInvalid = false) (h : a.dereference = some t) :
    t.isInvalid = false := by
  unfold Ty.dereference at h
  split at h
  · cases h
    exact ha
  · split at h
    · cases h
      rfl
    · cases h

lemma annotationComplaint_eq_none {name : String} {stated : Option Ty} (ha : a.isInvalid = false) :
    annotationComplaint name stated a l = none ↔ ∀ u ∈ stated, u = a := by
  cases stated with
  | none => simp [annotationComplaint]
  | some u => simp [annotationComplaint, complainIf_eq_none, ha]

lemma conditionComplaint_eq_none (ha : a.isInvalid = false) :
    conditionComplaint a l = none ↔ a = .bool := by
  simp [conditionComplaint, complainIf_eq_none, ha]

lemma armsComplaint_eq_none (ha : a.isInvalid = false) (hb : b.isInvalid = false) :
    armsComplaint a b l = none ↔ a = b := by
  simp [armsComplaint, complainIf_eq_none, ha, hb]

lemma argumentComplaint_eq_none {callee : String} (hb : b.isInvalid = false) :
    argumentComplaint callee a b l = none ↔ b = a := by
  simp [argumentComplaint, complainIf_eq_none, hb]

/-! ### Places of complaints -/

/-- A complaint, if there is one, is about a place with the property `P`. -/
def PointsInto (P : Location → Prop) (c : Option Complaint) : Prop := ∀ d ∈ c, P d.location

section Places

variable {P : Location → Prop}

lemma pointsInto_none : PointsInto P none := by simp [PointsInto]

lemma pointsInto_some {p : Problem} {note : Option String} (hl : P l) :
    PointsInto P (some ⟨p, l, note⟩) := by
  simpa [PointsInto] using hl

lemma pointsInto_complainIf {c : Bool} {p : Problem} {note : Option String} (hl : P l) :
    PointsInto P (complainIf c p l note) := by
  cases c with
  | false => exact pointsInto_none
  | true => exact pointsInto_some hl

lemma pointsInto_ofBinary {operator : Token.Kind} {target : String} (hl : P l) :
    PointsInto P (ofBinary operator target a b l).complaint := by
  unfold ofBinary
  split_ifs
  · exact pointsInto_complainIf hl
  · exact pointsInto_complainIf hl
  · unfold ofArithmetic
    split_ifs
    · exact pointsInto_none
    all_goals exact pointsInto_complainIf hl
  · exact pointsInto_some hl

lemma pointsInto_ofUnary {operator : Token.Kind} (hl : P l) :
    PointsInto P (ofUnary operator a l).complaint := by
  by_cases hinvalid : a.isInvalid = true
  · simp only [ofUnary, if_pos hinvalid]
    exact pointsInto_none
  · simp only [ofUnary, if_neg hinvalid]
    split
    · split
      · exact pointsInto_none
      · exact pointsInto_some hl
    · split
      · exact pointsInto_none
      · exact pointsInto_some hl
    · exact pointsInto_some hl

lemma pointsInto_ofReturn {declared : Option Ty} (hl : P l) :
    PointsInto P (ofReturn declared a l).complaint := by
  cases declared with
  | none => exact pointsInto_some hl
  | some _ => exact pointsInto_complainIf hl

/-- A complaint about a subscript is about the whole or about the index. -/
lemma pointsInto_ofSubscript (hl : P l) (hl' : P l') :
    PointsInto P (ofSubscript a b l l').complaint := by
  unfold ofSubscript
  split_ifs
  · exact pointsInto_none
  · exact pointsInto_some hl
  · exact pointsInto_some hl'
  · exact pointsInto_none

lemma pointsInto_annotationComplaint {name : String} {stated : Option Ty} (hl : P l) :
    PointsInto P (annotationComplaint name stated a l) := by
  cases stated with
  | none => exact pointsInto_none
  | some _ => exact pointsInto_complainIf hl

end Places

end Fern.Typing
