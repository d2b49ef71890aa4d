import Mathlib.Data.List.Forall2
import Rulebook.Proofs.NumericValue
import Rulebook.Proofs.OrderedTables
import Rulebook.Proofs.Relations

/-!
# Equality of values, part by part

Arrays are equal when their items are, one by one. Objects are equal only when their members have
the same form, so that a number inside an object must be written in one way. `equality_structural`
says for which objects this differs from equality of the members, and which numbers inside a value
may be written in the other form without any operator taking notice.
-/
namespace Rulebook

theorem Truth.ofBool_inj {a b : Bool} (h : ofBool a = ofBool b) : a = b := by
  cases a <;> cases b <;> first | rfl | cases h

namespace Json

mutual

theorem same_refl : ∀ v : Json, v.same v = true
  | .null => rfl
  | .bool _ | .string _ => by simp [same]
  | .number n => by simp [same, Number.same_iff]
  | .array items => sameItems_refl items
  | .object members => sameMembers_refl members

theorem sameItems_refl : ∀ items : List Json, sameItems items items = true
  | [] => rfl
  | item :: rest => by simp [sameItems, same_refl item, sameItems_refl rest]

theorem sameMembers_refl : ∀ members : List (String × Json), sameMembers members members = true
  | [] => rfl
  | (_, v) :: rest => by simp [sameMembers, same_refl v, sameMembers_refl rest]

end

mutual

/-- Values of one form have the same form as the same values. -/
theorem same_left : ∀ (u : Json) {v : Json}, u.same v = true → ∀ w : Json, u.same w = v.same w
  | .null, v, h, w => by
    cases v with
    | null => rfl
    | bool | string | number | array | object => cases h
  | .bool a, v, h, w => by
    cases v with
    | bool b =>
      obtain rfl : a = b := by simpa [same] using h
      rfl
    | null | string | number | array | object => cases h
  | .string a, v, h, w => by
    cases v with
    | string b =>
      obtain rfl : a = b := by simpa [same] using h
      rfl
    | null | bool | number | array | object => cases h
  | .number a, v, h, w => by
    cases v with
    | number b =>
      cases w with
      | number c => exact Number.same_left h
      | null | bool | string | array | object => rfl
    | null | bool | string | array | object => cases h
  | .array xs, v, h, w => by
    cases v with
    | array ys =>
      cases w with
      | array ws => exact sameItems_left xs h ws
      | null | bool | string | number | object => rfl
    | null | bool | string | number | object => cases h
  | .object xs, v, h, w => by
    cases v with
    | object ys =>
      cases w with
      | object ws => exact sameMembers_left xs h ws
      | null | bool | string | number | array => rfl
    | null | bool | string | number | array => cases h

theorem sameItems_left : ∀ (xs : List Json) {ys : List Json}, sameItems xs ys = true →
    ∀ ws : List Json, sameItems xs ws = sameItems ys ws
  | [], ys, h, ws => by
    cases ys with
    | nil => rfl
    | cons y ys => cases h
  | x :: xs, ys, h, ws => by
    cases ys with
    | nil => cases h
    | cons y ys =>
      have hparts : x.same y = true ∧ sameItems xs ys = true := by simpa [sameItems] using h
      cases ws with
      | nil => rfl
      | cons w ws => rw [sameItems, sameItems, same_left x hparts.1, sameItems_left xs hparts.2]

theorem sameMembers_left : ∀ (xs : List (String × Json)) {ys : List (String × Json)},
    sameMembers xs ys = true →
    ∀ ws : List (String × Json), sameMembers xs ws = sameMembers ys ws
  | [], ys, h, ws => by
    cases ys with
    | nil => rfl
    | cons y ys => cases h
  | (a, x) :: xs, ys, h, ws => by
    cases ys with
    | nil => cases h
    | cons y ys =>
      have hparts : (a = y.1 ∧ x.same y.2 = true) ∧ sameMembers xs ys = true := by
        simpa [sameMembers] using h
      cases ws with
      | nil => rfl
      | cons w ws =>
        rw [sameMembers, sameMembers, hparts.1.1, same_left x hparts.1.2,
          sameMembers_left xs hparts.2]

end

theorem same_symm {v w : Json} (h : v.same w = true) : w.same v = true := by
  rw [← same_left v h]
  exact same_refl v

mutual

theorem equal_refl : ∀ v : Json, v.equal v = true
  | .null => rfl
  | .bool _ | .string _ => by simp [equal, same]
  | .number n => by simp [equal, Number.compare_self]
  | .array items => equalItems_refl items
  | .object members => sameMembers_refl members

theorem equalItems_refl : ∀ items : List Json, equalItems items items = true
  | [] => rfl
  | item :: rest => by simp [equalItems, equal_refl item, equalItems_refl rest]

end

mutual

theorem equal_comm : ∀ v w : Json, v.equal w = w.equal v
  | .array xs, w => by
    cases w with
    | array ws => exact equalItems_comm xs ws
    | null | bool | string | number | object => rfl
  | .number a, w => by
    cases w with
    | number b => simp [equal, Number.compare_eq_comm]
    | null | bool | string | array | object => rfl
  | .object ms, w => by
    cases w with
    | object ns => exact Bool.eq_iff_iff.mpr ⟨same_symm, same_symm⟩
    | null | bool | string | number | array => rfl
  | .null, w | .bool _, w | .string _, w => by
    cases w <;> simp [equal, same, eq_comm]

theorem equalItems_comm : ∀ xs ys : List Json, equalItems xs ys = equalItems ys xs
  | [], ys => by cases ys <;> rfl
  | x :: xs, ys => by
    cases ys with
    | nil => rfl
    | cons y ys => rw [equalItems, equalItems, equal_comm x y, equalItems_comm xs ys]

end

/-- Both are equal to the same values. -/
def Alike (v w : Json) : Prop := ∀ other : Json, v.equal other = w.equal other

theorem Alike.right {v w : Json} (h : Alike v w) (other : Json) : other.equal v = other.equal w := by
  rw [equal_comm, h other, equal_comm]

theorem alike_number {a b : Number} :
    Alike (.number a) (.number b) ↔ ∀ c, a.compare c = .eq ↔ b.compare c = .eq := by
  constructor
  · intro h c
    simpa [equal] using h (.number c)
  · intro h other
    cases other with
    | number c => simp [equal, h c]
    | null | bool | string | array | object => rfl

theorem alike_object {ms ns : List (String × Json)} :
    Alike (.object ms) (.object ns) ↔ (Json.object ms).same (.object ns) = true := by
  constructor
  · intro h
    exact same_symm ((h (.object ms)).symm.trans (same_refl (.object ms)))
  · intro h other
    cases other with
    | object os => exact same_left (.object ms) h (.object os)
    | null | bool | string | number | array => rfl

/-- Items are compared one by one, so each pair can be tried with the others held fixed. -/
theorem equalItems_cons_iff {x y : Json} {xs ys : List Json} :
    (∀ others, equalItems (x :: xs) others = equalItems (y :: ys) others) ↔
      Alike x y ∧ ∀ others, equalItems xs others = equalItems ys others := by
  constructor
  · intro h
    have hself := h (x :: xs)
    obtain ⟨hfirst, hrest⟩ : y.equal x = true ∧ equalItems ys xs = true := by
      simpa [equalItems, equal_refl, equalItems_refl] using hself.symm
    constructor
    · intro other
      have hother := h (other :: xs)
      simpa [equalItems, equalItems_refl, hrest] using hother
    · intro others
      have hothers := h (x :: others)
      simpa [equalItems, equal_refl, hfirst] using hothers
  · rintro ⟨hfirst, hrest⟩ others
    cases others with
    | nil => rfl
    | cons other others => rw [equalItems, equalItems, hfirst other, hrest others]

theorem alike_array {xs ys : List Json} :
    Alike (.array xs) (.array ys) ↔ List.Forall₂ Alike xs ys := by
  have hitems : Alike (.array xs) (.array ys) ↔
      ∀ others, equalItems xs others = equalItems ys others := by
    refine ⟨fun h others => h (.array others), fun h other => ?_⟩
    cases other with
    | array others => exact h others
    | null | bool | string | number | object => rfl
  rw [hitems]
  clear hitems
  induction xs generalizing ys with
  | nil =>
    cases ys with
    | nil => exact ⟨fun _ => .nil, fun _ _ => rfl⟩
    | cons y ys => exact ⟨fun h => absurd (h []) (by simp [equalItems]), fun h => (nomatch h)⟩
  | cons x xs ih =>
    cases ys with
    | nil => exact ⟨fun h => absurd (h []) (by simp [equalItems]), fun h => (nomatch h)⟩
    | cons y ys =>
      rw [equalItems_cons_iff, List.forall₂_cons]
      exact and_congr Iff.rfl ih

mutual

/-- Some numbers have been replaced by numbers of the same value. -/
def Renumbered : Json → Json → Prop
  | .number a, .number b => a.steps = b.steps
  | .array xs, .array ys => RenumberedItems xs ys
  | .object ms, .object ns => RenumberedMembers ms ns
  | v, w => v.same w = true

def RenumberedItems : List Json → List Json → Prop
  | [], [] => True
  | x :: xs, y :: ys => Renumbered x y ∧ RenumberedItems xs ys
  | _, _ => False

def RenumberedMembers : List (String × Json) → List (String × Json) → Prop
  | [], [] => True
  | (a, x) :: xs, (b, y) :: ys => a = b ∧ Renumbered x y ∧ RenumberedMembers xs ys
  | _, _ => False

end

mutual

/-- A number inside an object has another form, or one outside objects can be told from the number
that it was. -/
def Tells : Json → Json → Prop
  | .number a, .number b => a.Tells b
  | .array xs, .array ys => TellsItems xs ys
  | .object ms, .object ns => (Json.object ms).same (.object ns) = false
  | _, _ => False

def TellsItems : List Json → List Json → Prop
  | x :: xs, y :: ys => Tells x y ∨ TellsItems xs ys
  | _, _ => False

end

mutual

theorem alike_iff : ∀ {v w : Json}, Renumbered v w → (Alike v w ↔ ¬ Tells v w)
  | .number a, w, h => by
    cases w with
    | number b => rw [alike_number, Number.swappable_iff h, Tells]
    | null | bool | string | array | object => cases h
  | .array xs, w, h => by
    cases w with
    | array ys => rw [alike_array, alikeItems_iff h, Tells]
    | null | bool | string | number | object => cases h
  | .object ms, w, h => by
    cases w with
    | object ns => rw [alike_object, Tells, Bool.not_eq_false]
    | null | bool | string | number | array => cases h
  | .null, w, h | .bool _, w, h | .string _, w, h => by
    cases w <;> simp_all [Renumbered, same, Alike, Tells]

theorem alikeItems_iff : ∀ {xs ys : List Json}, RenumberedItems xs ys →
    (List.Forall₂ Alike xs ys ↔ ¬ TellsItems xs ys)
  | [], ys, h => by
    cases ys with
    | nil => simp [TellsItems]
    | cons y ys => cases h
  | x :: xs, ys, h => by
    cases ys with
    | nil => cases h
    | cons y ys => rw [List.forall₂_cons, alike_iff h.1, alikeItems_iff h.2, TellsItems, not_or]

end

/-- The operators that look for equal values, with two constants for their operands. -/
def comparisons {σ : Type} (l r : Json) : List (Formula σ) :=
  [.relation .equal (.ofJson l) (.ofJson r), .contains .all (.ofJson l) (.ofJson r),
    .contains .any (.ofJson l) (.ofJson r)]

/-- None of these operators says anything else of the second value than of the first, on whichever
side it stands. -/
def Unnoticed (v w : Json) : Prop :=
  ∀ (σ : Type) (env : Environment) (other : Json),
    (comparisons v other : List (Formula σ)).map (Formula.test env) =
        (comparisons w other).map (Formula.test env) ∧
      (comparisons other v : List (Formula σ)).map (Formula.test env) =
        (comparisons other w).map (Formula.test env)

section

variable {σ : Type} {env : Environment} {l r : Json} {containment : Containment}

theorem test_equal :
    Formula.test env (.relation .equal (.ofJson l) (.ofJson r)) =
      (pure (.ofBool (!l.isNull && (!r.isNull && l.equal r))) : Evaluation σ Truth) := by
  simp only [Formula.test, Term.ofJson, Term.evaluate, pure_bind]
  cases hl : l.isNull
  · cases hr : r.isNull
    · rfl
    · rfl
  · rfl

theorem test_contains :
    Formula.test env (.contains containment (.ofJson l) (.ofJson r)) =
      (match l with
        | .null => pure .no
        | .array items =>
          pure (.ofBool (!r.isNull && containment.holds items r.asItems))
        | other => throw (.mismatch .array other.typeName) : Evaluation σ Truth) := by
  simp only [Formula.test, Term.ofJson, Term.evaluate, pure_bind]
  cases l with
  | array items => cases r <;> rfl
  | null | bool | number | string | object => rfl

end

theorem typeName_of_equal {v w : Json} (h : v.equal w = true) : v.typeName = w.typeName := by
  cases v <;> cases w <;> first | rfl | cases h

theorem isNull_iff {v : Json} : v.isNull = true ↔ v.typeName = "null" := by
  cases v <;> simp [isNull, typeName]

theorem eq_null_of_isNull {v : Json} (h : v.isNull = true) : v = .null := by
  cases v <;> first | rfl | cases h

theorem equal_null {v : Json} : v.equal .null = v.isNull := by
  cases v <;> rfl

theorem Alike.equal {v w : Json} (h : Alike v w) : v.equal w = true := (h w).trans (equal_refl w)

theorem Alike.typeName_eq {v w : Json} (h : Alike v w) : v.typeName = w.typeName :=
  typeName_of_equal h.equal

theorem Alike.isNull_eq {v w : Json} (h : Alike v w) : v.isNull = w.isNull := by
  rw [Bool.eq_iff_iff, isNull_iff, isNull_iff, h.typeName_eq]

theorem Alike.asItems {v w : Json} (h : Alike v w) : List.Forall₂ Alike v.asItems w.asItems := by
  have hequal := h.equal
  cases v with
  | array xs =>
    cases w with
    | array ys => exact alike_array.mp h
    | null | bool | number | string | object => cases hequal
  | null | bool | number | string | object =>
    cases w with
    | array ys => cases hequal
    | null | bool | number | string | object => exact .cons h .nil

theorem any_equal_congr {items items' : List Json} (h : List.Forall₂ Alike items items')
    (needle : Json) :
    (items.any fun item => item.equal needle) = items'.any fun item => item.equal needle := by
  induction h with
  | nil => rfl
  | cons hfirst _ ih => rw [List.any_cons, List.any_cons, hfirst needle, ih]

/-- A containment looks at nothing but what its values are equal to. -/
theorem holds_congr {containment : Containment} {items items' needles needles' : List Json}
    (hitems : List.Forall₂ Alike items items') (hneedles : List.Forall₂ Alike needles needles') :
    containment.holds items needles = containment.holds items' needles' := by
  have hfound : ∀ {needle needle' : Json}, Alike needle needle' →
      (items.any fun item => item.equal needle) = items'.any fun item => item.equal needle' := by
    intro needle needle' h
    rw [any_equal_congr hitems]
    exact congrArg items'.any (funext h.right)
  cases containment with
  | all =>
    change containsAll items needles = containsAll items' needles'
    unfold containsAll
    induction hneedles with
    | nil => rfl
    | cons hfirst _ ih => rw [List.all_cons, List.all_cons, hfound hfirst, ih]
  | any =>
    change containsAny items needles = containsAny items' needles'
    unfold containsAny
    induction hneedles with
    | nil => rfl
    | cons hfirst _ ih => rw [List.any_cons, List.any_cons, hfound hfirst, ih]

theorem alike_refl (v : Json) : Alike v v := fun _ => rfl

theorem test_contains_congr {σ : Type} {env : Environment} {containment : Containment}
    {l l' r r' : Json} (hl : Alike l l') (hr : Alike r r') :
    (Formula.test env (.contains containment (.ofJson l) (.ofJson r)) : Evaluation σ Truth) =
      Formula.test env (.contains containment (.ofJson l') (.ofJson r')) := by
  have hequal := hl.equal
  rw [test_contains, test_contains, hr.isNull_eq]
  cases l with
  | array xs =>
    cases l' with
    | array ys =>
      dsimp only
      rw [holds_congr (alike_array.mp hl) hr.asItems]
    | null | bool | number | string | object => cases hequal
  | null | bool | number | string | object =>
    cases l' <;> first | rfl | cases hequal

theorem test_equal_congr {σ : Type} {env : Environment} {l l' r r' : Json} (hl : Alike l l')
    (hr : Alike r r') :
    (Formula.test env (.relation .equal (.ofJson l) (.ofJson r)) : Evaluation σ Truth) =
      Formula.test env (.relation .equal (.ofJson l') (.ofJson r')) := by
  rw [test_equal, test_equal, hl.isNull_eq, hr.isNull_eq, hl r, hr.right l']

theorem comparisons_congr {σ : Type} {env : Environment} {l l' r r' : Json} (hl : Alike l l')
    (hr : Alike r r') :
    (comparisons l r : List (Formula σ)).map (Formula.test env) =
      (comparisons l' r').map (Formula.test env) := by
  simp only [comparisons, List.map_cons, List.map_nil, test_equal_congr hl hr,
    test_contains_congr hl hr]

/-- The operators take notice just of what a value is equal to. -/
theorem unnoticed_iff_alike {v w : Json} : Unnoticed v w ↔ Alike v w := by
  constructor
  · intro h
    have hequal : ∀ other : Json, (!v.isNull && (!other.isNull && v.equal other)) =
        (!w.isNull && (!other.isNull && w.equal other)) := by
      intro other
      have htests := (h Unit Relation.emptyEnvironment other).1
      simp only [comparisons, List.map_cons, List.cons.injEq, test_equal] at htests
      have hresult := congrArg (fun e : Evaluation Unit Truth => (e.run Relation.emptySession).1)
        htests.1
      exact Truth.ofBool_inj (Except.ok.inj hresult)
    have hv := hequal v
    have hw := hequal w
    rw [equal_refl] at hv hw
    intro other
    cases hvnull : v.isNull with
    | true =>
      have hwnull : w.isNull = true := by simpa [hvnull] using hw
      rw [eq_null_of_isNull hvnull, eq_null_of_isNull hwnull]
    | false =>
      have hwnull : w.isNull = false := by
        rw [hvnull] at hv
        cases hwnull : w.isNull <;> simp_all
      cases hother : other.isNull with
      | true => rw [eq_null_of_isNull hother, equal_null, equal_null, hvnull, hwnull]
      | false => simpa [hvnull, hwnull, hother] using hequal other
  · intro h σ env other
    exact ⟨comparisons_congr h (alike_refl other), comparisons_congr (alike_refl other) h⟩

/-- The same names, and equal members under them. -/
def MembersEqual (ms ns : Table Json) : Prop := Table.Alike (fun x y => x.equal y = true) ms ns

/-- A member is written in two forms. -/
def Reshaped (ms ns : Table Json) : Prop :=
  ∃ name x y, Table.get? ms name = some x ∧ Table.get? ns name = some y ∧ x.same y = false

theorem sameMembers_iff {ms ns : List (String × Json)} :
    sameMembers ms ns = true ↔
      List.Forall₂ (fun p q => p.1 = q.1 ∧ p.2.same q.2 = true) ms ns := by
  induction ms generalizing ns with
  | nil => cases ns <;> simp [sameMembers]
  | cons m ms ih => cases ns <;> simp [sameMembers, ih]

theorem equalItems_iff {xs ys : List Json} :
    equalItems xs ys = true ↔ List.Forall₂ (fun x y => x.equal y = true) xs ys := by
  induction xs generalizing ys with
  | nil => cases ys <;> simp [equalItems]
  | cons x xs ih => cases ys <;> simp [equalItems, ih]

mutual

theorem equal_of_same : ∀ (v : Json) {w : Json}, v.same w = true → v.equal w = true
  | .number a, w, h => by
    cases w with
    | number b =>
      exact decide_eq_true ((Number.compare_eq_of_same h).mpr Number.compare_self)
    | null | bool | string | array | object => cases h
  | .array xs, w, h => by
    cases w with
    | array ys => exact equalItems_of_same xs h
    | null | bool | string | number | object => cases h
  | .null, w, h | .bool _, w, h | .string _, w, h | .object _, w, h => by
    cases w <;> exact h

theorem equalItems_of_same : ∀ (xs : List Json) {ys : List Json}, sameItems xs ys = true →
    equalItems xs ys = true
  | [], ys, h => by cases ys <;> exact h
  | x :: xs, ys, h => by
    cases ys with
    | nil => cases h
    | cons y ys =>
      obtain ⟨hfirst, hrest⟩ := (Bool.and_eq_true ..).mp h
      rw [equalItems, equal_of_same x hfirst, equalItems_of_same xs hrest, Bool.and_self]

end

theorem equal_object_iff_alike {ms ns : Table Json} (hms : Table.Ordered ms)
    (hns : Table.Ordered ns) :
    (Json.object ms).equal (.object ns) = true ↔
      Table.Alike (fun x y => x.same y = true) ms ns :=
  sameMembers_iff.trans
    (Table.forall₂_iff_alike (S := fun x y : Json => x.same y = true) hms hns)

/-- Objects are equal when they have the same names with equal members, none of which is written in
two forms. -/
theorem equal_object_iff {ms ns : Table Json} (hms : Table.Ordered ms) (hns : Table.Ordered ns) :
    (Json.object ms).equal (.object ns) = true ↔ MembersEqual ms ns ∧ ¬ Reshaped ms ns := by
  rw [equal_object_iff_alike hms hns]
  constructor
  · intro h
    constructor
    · intro name
      have hname := h name
      generalize Table.get? ms name = held at hname ⊢
      generalize Table.get? ns name = held' at hname ⊢
      cases hname with
      | some hsame => exact .some (equal_of_same _ hsame)
      | none => exact .none
    · rintro ⟨name, x, y, hx, hy, hxy⟩
      have hname := h name
      rw [hx, hy] at hname
      cases hname with
      | some hsame => simp [hsame] at hxy
  · rintro ⟨hequal, hshaped⟩ name
    have hname := hequal name
    cases hx : Table.get? ms name with
    | none =>
      rw [hx] at hname
      generalize Table.get? ns name = held at hname ⊢
      cases hname
      exact .none
    | some x =>
      cases hy : Table.get? ns name with
      | none =>
        rw [hx, hy] at hname
        cases hname
      | some y =>
        refine .some ?_
        by_contra hxy
        exact hshaped ⟨name, x, y, hx, hy, Bool.eq_false_iff.mpr hxy⟩

/-- Arrays are equal just if their items are. For objects equality of the members is the law unless a
member is written in two forms. Numbers inside a value may be replaced by numbers of the same value
unnoticed, unless one of them changes its form inside an object, or is an integer that shares its
double with another one. -/
theorem equality_structural {xs ys : List Json} {ms ns : Table Json} {v w : Json}
    (hms : Table.Ordered ms) (hns : Table.Ordered ns) (h : Renumbered v w) :
    ((Json.array xs).equal (.array ys) = true ↔
      List.Forall₂ (fun x y => x.equal y = true) xs ys) ∧
    (((Json.object ms).equal (.object ns) = true ↔ MembersEqual ms ns) ↔
      ¬ (MembersEqual ms ns ∧ Reshaped ms ns)) ∧
    (Unnoticed v w ↔ ¬ Tells v w) := by
  refine ⟨equalItems_iff, ?_, unnoticed_iff_alike.trans (alike_iff h)⟩
  rw [equal_object_iff hms hns]
  tauto

/-- The number one as an integer and as a double. -/
def wholeOne : Json := .number (.whole ⟨1, by decide, by decide⟩)

def doubleOne : Json := .number (.double (.ofInt 1))

theorem doubleOne_value :
    Number.steps (.whole ⟨1, by decide, by decide⟩) = Number.steps (.double (.ofInt 1)) := by
  decide +kernel

theorem membersEqual_one {v : Json} (h : wholeOne.equal v = true) :
    MembersEqual [("a", wholeOne)] [("a", v)] := by
  intro name
  by_cases hname : "a" = name
  · rw [Table.get?_cons, if_pos hname, Table.get?_cons, if_pos hname]
    exact .some h
  · rw [Table.get?_cons_of_ne _ _ hname, Table.get?_cons_of_ne _ _ hname]
    exact .none

/-- Outside the object the integer is replaced, and the object stays as it is. -/
theorem one_unnoticed :
    (Json.array [wholeOne]).equal (.array [doubleOne]) = true ∧
      (Json.object [("a", wholeOne)]).equal (.object [("a", wholeOne)]) = true ∧
      Unnoticed (.array [wholeOne, .object [("a", wholeOne)]])
        (.array [doubleOne, .object [("a", wholeOne)]]) := by
  have hordered : Table.Ordered [("a", wholeOne)] := by simp [Table.Ordered, Table.names]
  have hrenumbered : Renumbered (.array [wholeOne, .object [("a", wholeOne)]])
      (.array [doubleOne, .object [("a", wholeOne)]]) :=
    ⟨doubleOne_value, ⟨rfl, rfl, trivial⟩, trivial⟩
  obtain ⟨harray, hobject, hreplaced⟩ :=
    @equality_structural [wholeOne] [doubleOne] _ _ _ _ hordered hordered hrenumbered
  refine ⟨harray.mpr (.cons (by decide +kernel) .nil), ?_, hreplaced.mpr ?_⟩
  · refine (hobject.mpr ?_).mpr (membersEqual_one (equal_refl wholeOne))
    rintro ⟨-, name, x, y, hx, hy, hxy⟩
    cases hx.symm.trans hy
    cases (same_refl x).symm.trans hxy
  · rintro (hcrowded | hshaped | hnone)
    · exact Whole.not_crowded_of_small (by decide) hcrowded
    · cases (same_refl (.object [("a", wholeOne)])).symm.trans hshaped
    · exact hnone

/-- Two objects with equal members are told apart, and so is `2 ^ 53` from the double of its value,
which `2 ^ 53 + 1` shares. -/
theorem replacements_noticed :
    (MembersEqual [("a", wholeOne)] [("a", doubleOne)] ∧
      (Json.object [("a", wholeOne)]).equal (.object [("a", doubleOne)]) = false) ∧
    (Number.steps (.whole ⟨9007199254740992, by decide, by decide⟩) =
        Number.steps (.double (.ofInt 9007199254740992)) ∧
      ¬ Unnoticed (.number (.whole ⟨9007199254740992, by decide, by decide⟩))
        (.number (.double (.ofInt 9007199254740992)))) := by
  have hvalue : Number.steps (.whole ⟨9007199254740992, by decide, by decide⟩) =
      Number.steps (.double (.ofInt 9007199254740992)) := by
    decide +kernel
  have hrenumbered : Renumbered (.number (.whole ⟨9007199254740992, by decide, by decide⟩))
      (.number (.double (.ofInt 9007199254740992))) := hvalue
  refine ⟨⟨membersEqual_one (by decide +kernel), by decide +kernel⟩, hvalue, fun h => ?_⟩
  refine (alike_iff hrenumbered).mp (unnoticed_iff_alike.mp h) ?_
  exact ⟨by decide, 9007199254740993, by decide, by decide, by decide +kernel⟩

end Json
end Rulebook
