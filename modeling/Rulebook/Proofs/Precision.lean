import Rulebook.Proofs.Counterparts
import Rulebook.Proofs.PathConformance

/-!
# Shapes that say less

A shape weakens when places in it may hold anything. Whatever is checked along a path from a shape
is checked from a weaker one as well. The shape of a list of terms is not weakened with its items,
since items that differ may become alike; so `Shape.Looser` looks at the outermost form only, which
is all that the operators look at.
-/
namespace Rulebook

namespace Shape

mutual

/-- Some places in the shape, at any depth, give way to places that may hold anything. -/
inductive WeakensTo : Shape → Shape → Prop
  | any (shape : Shape) : WeakensTo shape .any
  | same (shape : Shape) : WeakensTo shape shape
  | list {element element' : Shape} (h : WeakensTo element element') :
    WeakensTo (.list element) (.list element')
  | record {fields fields' : List (String × Shape)} (h : FieldsWeakenTo fields fields') :
    WeakensTo (.record fields) (.record fields')

inductive FieldsWeakenTo : List (String × Shape) → List (String × Shape) → Prop
  | nil : FieldsWeakenTo [] []
  | cons (name : String) {shape shape' : Shape} {rest rest' : List (String × Shape)}
    (h : WeakensTo shape shape') (hrest : FieldsWeakenTo rest rest') :
    FieldsWeakenTo ((name, shape) :: rest) ((name, shape') :: rest')

end

/-- The two shapes have one form, or the second may hold anything. -/
inductive Looser : Shape → Shape → Prop
  | any (shape : Shape) : Looser shape .any
  | same (shape : Shape) : Looser shape shape
  | list (element element' : Shape) : Looser (.list element) (.list element')
  | record (fields fields' : List (String × Shape)) : Looser (.record fields) (.record fields')

variable {shape shape' other other' : Shape}

theorem WeakensTo.eq_any (h : WeakensTo .any shape) : shape = .any := by
  cases h <;> rfl

theorem WeakensTo.looser (h : shape.WeakensTo shape') : shape.Looser shape' := by
  cases h with
  | any => exact .any shape
  | same => exact .same shape
  | list => exact .list _ _
  | record => exact .record _ _

theorem FieldsWeakenTo.get? {fields fields' : List (String × Shape)} (h : FieldsWeakenTo fields fields')
    {name : String} (hfield : Table.get? fields name = some shape) :
    ∃ shape', Table.get? fields' name = some shape' ∧ shape.WeakensTo shape' := by
  induction fields generalizing fields' with
  | nil => cases hfield
  | cons field rest ih =>
    cases h with
    | cons key hshape hrest =>
      rw [Table.get?_cons] at hfield
      split at hfield
      · next hkey =>
        cases hfield
        exact ⟨_, by rw [Table.get?_cons, if_pos hkey], hshape⟩
      · next hkey =>
        obtain ⟨shape', hfound, hweaker⟩ := ih hrest hfield
        exact ⟨shape', by rw [Table.get?_cons, if_neg hkey, hfound], hweaker⟩

namespace Looser

theorem isBooleanLike (h : shape.Looser shape') (hshape : shape.isBooleanLike = true) :
    shape'.isBooleanLike = true := by
  cases h with
  | any => rfl
  | same => exact hshape
  | list | record => cases hshape

theorem isTextLike (h : shape.Looser shape') (hshape : shape.isTextLike = true) :
    shape'.isTextLike = true := by
  cases h with
  | any => rfl
  | same => exact hshape
  | list | record => cases hshape

theorem isCollectionLike (h : shape.Looser shape') (hshape : shape.isCollectionLike = true) :
    shape'.isCollectionLike = true := by
  cases h with
  | any | list => rfl
  | same => exact hshape
  | record => cases hshape

theorem isOrderedWith (h : shape.Looser shape') (hother : other.Looser other')
    (hshapes : shape.isOrderedWith other = true) : shape'.isOrderedWith other' = true := by
  cases h with
  | any => rfl
  | same => cases hother with
    | any => cases shape <;> rfl
    | same => exact hshapes
    | list | record => cases shape <;> first | rfl | cases hshapes
  | list | record => cases hother with
    | any => rfl
    | same => cases other <;> first | rfl | cases hshapes
    | list | record => cases hshapes

theorem isEquatableWith (h : shape.Looser shape') (hother : other.Looser other')
    (hshapes : shape.isEquatableWith other = true) : shape'.isEquatableWith other' = true := by
  cases h with
  | any => rfl
  | same => cases hother with
    | any => cases shape <;> rfl
    | same => exact hshapes
    | list | record => cases shape <;> first | rfl | cases hshapes
  | list | record => cases hother with
    | any => rfl
    | same => cases other <;> first | rfl | cases hshapes
    | list | record => first | rfl | cases hshapes

end Looser
end Shape

namespace Path

variable {shape shape' next result : Shape}

theorem fieldShape_weakens (h : shape.WeakensTo shape') {field : String}
    (hfield : fieldShape shape field = .ok next) :
    ∃ next', fieldShape shape' field = .ok next' ∧ next.WeakensTo next' := by
  cases h with
  | any => exact ⟨.any, rfl, .any next⟩
  | same => exact ⟨next, hfield, .same next⟩
  | list helement =>
    unfold fieldShape at hfield ⊢
    dsimp only at hfield ⊢
    split at hfield
    · next hindex =>
      cases hfield
      exact ⟨_, if_pos hindex, helement⟩
    · cases hfield
  | record hfields =>
    unfold fieldShape at hfield ⊢
    dsimp only at hfield ⊢
    split at hfield
    · next found hfound =>
      cases hfield
      obtain ⟨shape', hfound', hweaker⟩ := hfields.get? hfound
      exact ⟨shape', by rw [hfound'], hweaker⟩
    · cases hfield

theorem collected_weakens (h : shape.WeakensTo shape') (nested : Bool) :
    (collected nested shape).WeakensTo (collected nested shape') := by
  cases h with
  | any => exact .any _
  | same => exact .same _
  | list helement =>
    unfold collected
    dsimp only
    split
    · exact helement
    · exact .list helement
  | record hfields => exact .record hfields

/-- The check of a path goes on with the shape of the first field. -/
theorem check_of_field {segment : Segment} {rest : Path} (hany : shape ≠ .any)
    (hfield : fieldShape shape segment.field = .ok next)
    (hstep : if segment.each then
        next = .any ∧ result = .list .any ∨
        ∃ element inner, next = .list element ∧ check rest element = .ok inner ∧
          result = .list (collected (hasEach rest) inner)
      else check rest next = .ok result) :
    check (segment :: rest) shape = .ok result := by
  have hopen : shape.isAny = false := by
    cases shape <;> first | rfl | exact absurd rfl hany
  rw [check, hopen, if_neg Bool.false_ne_true, hfield]
  cases heach : segment.each with
  | false =>
    simp only [heach, Bool.false_eq_true, if_false] at hstep
    exact hstep
  | true =>
    rw [heach, if_pos rfl] at hstep
    rcases hstep with ⟨rfl, rfl⟩ | ⟨element, inner, rfl, hinner, rfl⟩
    · rfl
    · simp only [bind, Except.bind, Bool.not_true, Bool.false_eq_true, if_false, hinner]
      cases inner <;> rfl

/-- A path that fits a shape fits every weaker one. -/
theorem check_weakens {path : Path} (h : shape.WeakensTo shape')
    (hcheck : path.check shape = .ok result) :
    ∃ result', path.check shape' = .ok result' ∧ result.WeakensTo result' := by
  induction path generalizing shape shape' result with
  | nil =>
    cases hcheck
    exact ⟨shape', rfl, h⟩
  | cons segment rest ih =>
    by_cases hany' : shape' = .any
    · subst hany'
      exact ⟨.any, check_any _, .any result⟩
    have hany : shape ≠ .any := by
      rintro rfl
      exact hany' h.eq_any
    obtain ⟨next, hfield, hstep⟩ := check_cons hany hcheck
    obtain ⟨next', hfield', hnext⟩ := fieldShape_weakens h hfield
    split at hstep
    · next heach =>
      rcases hstep with ⟨rfl, rfl⟩ | ⟨element, inner, rfl, hinner, rfl⟩
      · cases hnext.eq_any
        refine ⟨_, check_of_field hany' hfield' ?_, .same _⟩
        rw [if_pos heach]
        exact .inl ⟨rfl, rfl⟩
      · have hlist : ∀ {element'}, element.WeakensTo element' → next' = .list element' →
            ∃ result', check (segment :: rest) shape' = .ok result' ∧
              (Shape.list (collected (hasEach rest) inner)).WeakensTo result' := by
          rintro element' helement rfl
          obtain ⟨inner', hinner', hweaker⟩ := ih helement hinner
          refine ⟨_, check_of_field hany' hfield' ?_, .list (collected_weakens hweaker _)⟩
          rw [if_pos heach]
          exact .inr ⟨element', inner', rfl, hinner', rfl⟩
        cases hnext with
        | any =>
          refine ⟨_, check_of_field hany' hfield' ?_, .list (.any _)⟩
          rw [if_pos heach]
          exact .inl ⟨rfl, rfl⟩
        | same => exact hlist (.same element) rfl
        | list helement => exact hlist helement rfl
    · next heach =>
      obtain ⟨result', hcheck', hweaker⟩ := ih hnext hstep
      refine ⟨result', check_of_field hany' hfield' ?_, hweaker⟩
      rw [if_neg heach]
      exact hcheck'

end Path

theorem Shape.stable_weakensTo : Shape.Stable WeakensTo where
  refl := .same
  check h hcheck := Path.check_weakens h hcheck

/-- Every fact type has a weaker shape in the second schemas; a type that is not known may hold
anything. -/
def Schemas.WeakenTo (schemas schemas' : Schemas) : Prop :=
  ∀ typeName, (schemas.resolve typeName).WeakensTo (schemas'.resolve typeName)

end Rulebook
