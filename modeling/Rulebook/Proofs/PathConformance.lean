import Rulebook.Proofs.Evaluation

/-!
# Paths on values of a shape

A path that is checked against a shape gives, on values of that shape, values of the shape that the
check names. It can fail only below a place that may hold anything; `Path.Known` says that it meets
no such place, and in a shape that is `Definite` throughout no path can.
-/
namespace Rulebook

namespace Shape

@[simp] theorem holds_null (shape : Shape) : shape.Holds .null := by
  cases shape <;> simp [Holds]

@[simp] theorem holds_any (v : Json) : Shape.any.Holds v := by
  cases v <;> simp [Holds]

theorem holds_list {element : Shape} {v : Json} :
    (Shape.list element).Holds v ↔
      v = .null ∨ ∃ items, v = .array items ∧ ∀ item ∈ items, element.Holds item := by
  cases v <;> simp [Holds]

theorem holds_record {fields : List (String × Shape)} {v : Json} :
    (Shape.record fields).Holds v ↔
      v = .null ∨ ∃ members, v = .object members ∧ HoldsFields fields members := by
  cases v <;> simp [Holds]

theorem HoldsFields.get? {fields : List (String × Shape)} {members : Table Json} {name : String}
    {shape : Shape} (h : HoldsFields fields members) (hfield : Table.get? fields name = some shape) :
    shape.Holds ((Table.get? members name).getD .null) := by
  induction fields with
  | nil => cases hfield
  | cons field rest ih =>
    obtain ⟨key, held⟩ := field
    rw [HoldsFields] at h
    rw [Table.get?_cons] at hfield
    split at hfield
    · next hkey =>
      subst hkey
      cases hfield
      cases hmember : Table.get? members key with
      | none => exact holds_null shape
      | some v => exact h.1 v hmember
    · exact ih h.2 hfield

mutual

/-- No place in the shape, however deep, may hold anything. -/
def Definite : Shape → Prop
  | .any => False
  | .list element => Definite element
  | .record fields => DefiniteFields fields
  | .boolean | .integer | .float | .string | .datetime => True

def DefiniteFields : List (String × Shape) → Prop
  | [] => True
  | (_, shape) :: rest => Definite shape ∧ DefiniteFields rest

end

theorem Definite.ne_any {shape : Shape} (h : shape.Definite) : shape ≠ .any := by
  rintro rfl
  exact h

theorem DefiniteFields.get? {fields : List (String × Shape)} {name : String} {shape : Shape}
    (h : DefiniteFields fields) (hfield : Table.get? fields name = some shape) :
    shape.Definite := by
  induction fields with
  | nil => cases hfield
  | cons field rest ih =>
    obtain ⟨key, held⟩ := field
    rw [DefiniteFields] at h
    rw [Table.get?_cons] at hfield
    split at hfield
    · cases hfield
      exact h.1
    · exact ih h.2 hfield

/-- No value of a shape that is neither a list nor anything is an array. -/
theorem holds_array {shape : Shape} {items : List Json} (h : shape.Holds (.array items)) :
    shape = .any ∨ ∃ element, shape = .list element ∧ ∀ item ∈ items, element.Holds item := by
  cases shape with
  | any => exact .inl rfl
  | list element =>
    rcases holds_list.mp h with hnull | ⟨held, harray, helement⟩
    · cases hnull
    · cases harray
      exact .inr ⟨element, rfl, helement⟩
  | boolean | integer | float | string | datetime | record => simp [Holds] at h

end Shape

namespace Path

variable {shape next result : Shape} {v : Json}

/-- On its way from a shape the path neither reads from a place that may hold anything nor reads
such a place. -/
def Known : Path → Shape → Prop
  | [], _ => True
  | segment :: rest, shape =>
    shape ≠ .any ∧ ∀ next, fieldShape shape segment.field = .ok next → next ≠ .any ∧
      if segment.each then ∀ element, next = .list element → Known rest element
      else Known rest next

theorem fieldShape_holds {field : String} (hfield : fieldShape shape field = .ok next)
    (hv : shape.Holds v) : next.Holds (readField v field) := by
  unfold fieldShape at hfield
  split at hfield
  · cases hfield
    exact Shape.holds_any _
  · next fields =>
    split at hfield
    · next found hfound =>
      cases hfield
      rcases Shape.holds_record.mp hv with rfl | ⟨members, rfl, hmembers⟩
      · exact Shape.holds_null _
      · exact hmembers.get? hfound
    · cases hfield
  · next element =>
    split at hfield
    · cases hfield
      rcases Shape.holds_list.mp hv with rfl | ⟨items, rfl, hitems⟩
      · exact Shape.holds_null _
      · rw [readField]
        cases hitem : (index? field).bind fun i => items[i]? with
        | none => exact Shape.holds_null _
        | some item =>
          obtain ⟨i, -, hi⟩ := Option.bind_eq_some_iff.mp hitem
          exact hitems item (List.mem_of_getElem? hi)
    · cases hfield
  · cases hfield

theorem fieldShape_definite {field : String} (hfield : fieldShape shape field = .ok next)
    (h : shape.Definite) : next.Definite := by
  unfold fieldShape at hfield
  split at hfield
  · exact absurd rfl h.ne_any
  · next fields =>
    split at hfield
    · next found hfound =>
      cases hfield
      rw [Shape.Definite] at h
      exact h.get? hfound
    · cases hfield
  · next element =>
    split at hfield
    · cases hfield
      rwa [Shape.Definite] at h
    · cases hfield
  · cases hfield

theorem known_of_definite (path : Path) (h : shape.Definite) : path.Known shape := by
  induction path generalizing shape with
  | nil => trivial
  | cons segment rest ih =>
    rw [Known]
    refine ⟨h.ne_any, fun next hnext => ?_⟩
    have hdefinite := fieldShape_definite hnext h
    refine ⟨hdefinite.ne_any, ?_⟩
    split
    · rintro element rfl
      rw [Shape.Definite] at hdefinite
      exact ih hdefinite
    · exact ih hdefinite

/-- The shape of the items in a list of collected results, by the shape of the results. -/
def collected (nested : Bool) (shape : Shape) : Shape :=
  match shape with
  | .list innermost => if nested then innermost else shape
  | _ => shape

theorem collected_holds {nested : Bool} (hv : shape.Holds v)
    (hflat : nested = true → ∀ items, v ≠ .array items) : (collected nested shape).Holds v := by
  unfold collected
  split
  · split
    · next hnested =>
      rcases Shape.holds_list.mp hv with rfl | ⟨items, harray, -⟩
      · exact Shape.holds_null _
      · exact absurd harray (hflat hnested items)
    · exact hv
  · exact hv

theorem collect_holds {nested : Bool} {results : List Json} (h : ∀ w ∈ results, shape.Holds w) :
    ∀ w ∈ collect nested results, (collected nested shape).Holds w := by
  induction results with
  | nil => simp [collect]
  | cons first rest ih =>
    obtain ⟨hfirst, hrest⟩ := List.forall_mem_cons.mp h
    have hcollected := ih hrest
    cases first with
    | array items =>
      rw [collect]
      split
      · next hnested =>
        refine List.forall_mem_append.mpr ⟨fun item hitem => ?_, hcollected⟩
        rcases Shape.holds_array hfirst with rfl | ⟨element, rfl, helement⟩
        · exact Shape.holds_any item
        · rw [collected, if_pos hnested]
          exact helement item hitem
      · next hnested =>
        exact List.forall_mem_cons.mpr ⟨collected_holds hfirst fun h => absurd h hnested, hcollected⟩
    | null | bool | number | string | object =>
      rw [collect]
      · refine List.forall_mem_cons.mpr ⟨collected_holds hfirst fun _ items h => ?_, hcollected⟩
        cases h
      · intro items h
        cases h

/-- The first step of a check, unless it starts at a place that may hold anything. -/
theorem check_cons {segment : Segment} {rest : Path} (hany : shape ≠ .any)
    (h : check (segment :: rest) shape = .ok result) :
    ∃ next, fieldShape shape segment.field = .ok next ∧
      if segment.each then
        next = .any ∧ result = .list .any ∨
        ∃ element inner, next = .list element ∧ check rest element = .ok inner ∧
          result = .list (collected (hasEach rest) inner)
      else check rest next = .ok result := by
  have hopen : shape.isAny = false := by
    cases shape <;> first | rfl | exact absurd rfl hany
  rw [check, hopen, if_neg Bool.false_ne_true] at h
  obtain ⟨next, hnext, h⟩ := exists_of_bind_ok h
  refine ⟨next, hnext, ?_⟩
  cases heach : segment.each with
  | false => simpa [heach] using h
  | true =>
    simp only [heach, Bool.not_true, Bool.false_eq_true, if_false] at h
    rw [if_pos rfl]
    split at h
    · cases h
      exact .inl ⟨rfl, rfl⟩
    · next element =>
      obtain ⟨inner, hinner, h⟩ := exists_of_bind_ok h
      refine .inr ⟨element, inner, rfl, hinner, ?_⟩
      cases inner <;> cases h <;> rfl
    · cases h

theorem check_any (path : Path) : path.check .any = .ok .any := by
  cases path <;> rfl

/-- The results of a path on the items of a list. -/
theorem mapM_resolve {path : Path} {items results : List Json}
    (h : items.mapM (resolve path) = .ok results) :
    ∀ w ∈ results, ∃ item ∈ items, path.resolve item = .ok w := by
  induction items generalizing results with
  | nil =>
    cases h
    simp
  | cons item rest ih =>
    rw [List.mapM_cons] at h
    obtain ⟨first, hfirst, h⟩ := exists_of_bind_ok h
    obtain ⟨others, hothers, h⟩ := exists_of_bind_ok h
    cases h
    refine List.forall_mem_cons.mpr ⟨⟨item, List.mem_cons_self, hfirst⟩, fun w hw => ?_⟩
    obtain ⟨held, hheld, hresolve⟩ := ih hothers w hw
    exact ⟨held, List.mem_cons_of_mem _ hheld, hresolve⟩

/-- A path succeeds on a list when it succeeds on the items. -/
theorem mapM_resolve_succeeds {path : Path} {items : List Json}
    (h : ∀ item ∈ items, ∃ w, path.resolve item = .ok w) :
    ∃ results, items.mapM (resolve path) = .ok results := by
  induction items with
  | nil => exact ⟨[], rfl⟩
  | cons item rest ih =>
    obtain ⟨⟨first, hfirst⟩, hrest⟩ := List.forall_mem_cons.mp h
    obtain ⟨others, hothers⟩ := ih hrest
    refine ⟨first :: others, ?_⟩
    rw [List.mapM_cons, hfirst, hothers]
    rfl

/-- What a checked path gives on a value of the shape has the shape of the check. -/
theorem resolve_holds {path : Path} {w : Json} (hcheck : path.check shape = .ok result)
    (hv : shape.Holds v) (hw : path.resolve v = .ok w) : result.Holds w := by
  induction path generalizing shape result v w with
  | nil =>
    cases hcheck
    cases hw
    exact hv
  | cons segment rest ih =>
    by_cases hany : shape = .any
    · subst hany
      rw [check_any] at hcheck
      cases hcheck
      exact Shape.holds_any w
    · obtain ⟨next, hnext, hstep⟩ := check_cons hany hcheck
      have hfield := fieldShape_holds hnext hv
      rw [resolve] at hw
      split at hw
      · cases hw
        exact Shape.holds_null result
      · cases heach : segment.each with
        | false =>
          simp only [heach, Bool.not_false, if_true, Bool.false_eq_true, if_false] at hw hstep
          exact ih hstep hfield hw
        | true =>
          simp only [heach, Bool.not_true, Bool.false_eq_true, if_false, if_true] at hw hstep
          split at hw
          · cases hw
            exact Shape.holds_null result
          · next items hread =>
            obtain ⟨results, hresults, hw⟩ := exists_of_bind_ok hw
            cases hw
            rw [hread] at hfield
            rcases hstep with ⟨-, rfl⟩ | ⟨element, inner, rfl, hinner, rfl⟩
            · exact Shape.holds_list.mpr (.inr ⟨_, rfl, fun item _ => Shape.holds_any item⟩)
            · refine Shape.holds_list.mpr (.inr ⟨_, rfl, collect_holds fun w hw => ?_⟩)
              obtain ⟨item, hitem, hresolve⟩ := mapM_resolve hresults w hw
              rcases Shape.holds_array hfield with hlist | ⟨held, hlist, hitems⟩
              · cases hlist
              · cases hlist
                exact ih hinner (hitems item hitem) hresolve
          · cases hw

/-- A checked path that meets no place that may hold anything does not fail. -/
theorem resolve_succeeds {path : Path} (hcheck : path.check shape = .ok result)
    (hknown : path.Known shape) (hv : shape.Holds v) : ∃ w, path.resolve v = .ok w := by
  induction path generalizing shape result v with
  | nil => exact ⟨v, rfl⟩
  | cons segment rest ih =>
    rw [Known] at hknown
    obtain ⟨hany, hbelow⟩ := hknown
    obtain ⟨next, hnext, hstep⟩ := check_cons hany hcheck
    obtain ⟨hopen, hrest⟩ := hbelow next hnext
    have hfield := fieldShape_holds hnext hv
    rw [resolve]
    split
    · exact ⟨.null, rfl⟩
    · cases heach : segment.each with
      | false =>
        simp only [heach, Bool.not_false, if_true, Bool.false_eq_true, if_false] at hstep hrest ⊢
        exact ih hstep hrest hfield
      | true =>
        simp only [heach, Bool.not_true, Bool.false_eq_true, if_false, if_true] at hstep hrest ⊢
        rcases hstep with ⟨hnone, -⟩ | ⟨element, inner, rfl, hinner, -⟩
        · exact absurd hnone hopen
        · rcases Shape.holds_list.mp hfield with hnull | ⟨items, hitems, helement⟩
          · rw [hnull]
            exact ⟨.null, rfl⟩
          · obtain ⟨results, hresults⟩ := mapM_resolve_succeeds fun item hitem =>
              ih hinner (hrest element rfl) (helement item hitem)
            rw [hitems]
            refine ⟨.array (collect (hasEach rest) results), ?_⟩
            dsimp only
            rw [hresults]
            rfl

/-- On values of the shape that it is checked against, a path gives values of the shape of the
check; where the shape is definite it gives one for each of them. -/
theorem checked_path_sound {path : Path} (hcheck : path.check shape = .ok result)
    (hv : shape.Holds v) :
    (∀ w, path.resolve v = .ok w → result.Holds w) ∧
      (shape.Definite → ∃ w, path.resolve v = .ok w) :=
  ⟨fun _ hw => resolve_holds hcheck hv hw,
    fun hdefinite => resolve_succeeds hcheck (known_of_definite path hdefinite) hv⟩

/-- Rooms have tags, both in lists. -/
def hotelShape : Shape :=
  .record [("rooms", .list (.record [("price", .integer), ("tags", .list .string)]))]

/-- One room is null, and one has no list of tags. -/
def hotel : Json :=
  .object [("rooms", .array
    [.object [("price", .number (.ofNat 100)), ("tags", .array [.string "sea", .string "quiet"])],
      .null, .object [("price", .null), ("tags", .array [.string "city"])],
      .object [("tags", .null)]])]

/-- The tags of all rooms. -/
def allTags : Path := [⟨"rooms", true⟩, ⟨"tags", true⟩]

/-- Lists of tags are run together to one list of texts. -/
theorem hotel_tags_sound :
    allTags.check hotelShape = .ok (.list .string) ∧ hotelShape.Holds hotel ∧
      hotelShape.Definite ∧ (∃ w, allTags.resolve hotel = .ok w) ∧
      ∀ w, allTags.resolve hotel = .ok w → (Shape.list .string).Holds w := by
  have hcheck : allTags.check hotelShape = .ok (.list .string) := rfl
  have hprice : (Number.ofNat 100).isWhole = true := rfl
  have hv : hotelShape.Holds hotel := by
    simp [hotelShape, hotel, Shape.Holds, Shape.HoldsFields, Table.get?_cons, hprice]
  have hdefinite : hotelShape.Definite := by
    simp [hotelShape, Shape.Definite, Shape.DefiniteFields]
  obtain ⟨hshape, hsome⟩ := checked_path_sound hcheck hv
  exact ⟨hcheck, hv, hdefinite, hsome hdefinite, hshape⟩

end Path
end Rulebook
