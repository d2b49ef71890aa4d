import Rulebook.Compiler
import Rulebook.Proofs.ExactReading
import Rulebook.Proofs.JsonReading
import Rulebook.Rule.Text

/-!
# Rules are read back

The text of rules is read as the rules that were written, form by form and field by field: nothing
that is left out is needed, and nothing that is needed is left out. So rules compile from their text
as they do by themselves, if every number in them is read as it is written.
-/
namespace Rulebook

open Json

namespace Json

variable {α : Type}

/-- A list is read back as far as its items are. -/
theorem list_of_forall {read : Json → Option α} {write : α → Json} {values : List α}
    (h : ∀ v ∈ values, read (write v) = some v) :
    list? read (.array (values.map write)) = some values := by
  change (values.map write).mapM read = some values
  induction values with
  | nil => rfl
  | cons v rest ih =>
    rw [List.forall_mem_cons] at h
    rw [List.map_cons, List.mapM_cons, h.1, ih h.2]
    rfl

theorem orderedItems_map {f g : α → Json} {values : List α}
    (h : ∀ v ∈ values, (f v).ordered = g v) : orderedItems (values.map f) = values.map g := by
  induction values with
  | nil => rfl
  | cons v rest ih =>
    rw [List.forall_mem_cons] at h
    rw [List.map_cons, orderedItems, h.1, ih h.2, List.map_cons]

theorem Need.member_of_mem {fields : List (String × Need × Json)}
    (hnodup : (fields.map Prod.fst).Nodup) : ∀ field ∈ fields,
      Need.member? (.fields (fields.map fun field => (field.1, field.2.1))) field.1 =
        some field.2.1 := by
  induction fields with
  | nil => exact List.forall_mem_nil _
  | cons first rest ih =>
    rw [List.map_cons, List.nodup_cons] at hnodup
    refine List.forall_mem_cons.mpr ⟨by simp [Need.member?], fun field hfield => ?_⟩
    have hne : first.1 ≠ field.1 := fun heq => hnodup.1 (heq ▸ List.mem_map_of_mem hfield)
    rw [← ih hnodup.2 field hfield]
    simp [Need.member?, hne]

/-- A record that is written field by field is covered by what is needed of each field. -/
theorem Need.covers_record (fields : List (String × Need × Json))
    (hnodup : (fields.map Prod.fst).Nodup) (h : ∀ field ∈ fields, field.2.1.Covers field.2.2) :
    Need.Covers (.fields (fields.map fun field => (field.1, field.2.1)))
      (.object (fields.map fun field => (field.1, field.2.2))) := by
  refine .fields (fun entry hentry => ?_) (fun entry hentry inner hinner => ?_)
  · obtain ⟨field, hfield, rfl⟩ := List.mem_map.mp hentry
    rw [Need.member_of_mem hnodup field hfield]
    rfl
  · obtain ⟨field, hfield, rfl⟩ := List.mem_map.mp hentry
    rw [Need.member_of_mem hnodup field hfield] at hinner
    cases hinner
    exact h field hfield

theorem Need.covers_items {each : Need} {write : α → Json} {values : List α}
    (h : ∀ v ∈ values, each.Covers (write v)) :
    Need.Covers (.items each) (.array (values.map write)) := by
  refine .items fun v hv => ?_
  obtain ⟨value, hvalue, rfl⟩ := List.mem_map.mp hv
  exact h value hvalue

end Json

-- Records with given names are read by looking these up, and put in order by comparing them.
attribute [local simp] Fields.of? Fields.ofMembers? Fields.member? Fields.get Fields.required?
  Fields.default? Fields.optional? Json.string?

attribute [local simp] Json.ordered Json.orderedItems Json.orderedMembers Table.ofEntries
  Table.put_nil Table.put_before Table.put_behind

namespace Kind

theorem read_fileName (inner : Bool) (kind : Kind) :
    read? inner (.string kind.fileName) = some kind := by
  cases kind <;> simp [read?, ofFileName?, all, fileName, label]

end Kind

namespace Expression

mutual

/-- Every object in a constant lists its members by name, each name once. -/
def Ordered : Expression → Prop
  | .value _ v => v.Ordered
  | .values items => OrderedItems items
  | .operator _ operands => OrderedItems operands
  | .function _ params => OrderedParams params
  | .reference _ _ => True

def OrderedItems : List Expression → Prop
  | [] => True
  | item :: rest => Ordered item ∧ OrderedItems rest

def OrderedParams : List (String × Expression) → Prop
  | [] => True
  | (_, v) :: rest => Ordered v ∧ OrderedParams rest

end

theorem orderedParams_iff {params : List (String × Expression)} :
    OrderedParams params ↔ ∀ param ∈ params, param.2.Ordered := by
  induction params with
  | nil => simp [OrderedParams]
  | cons param rest ih => rw [OrderedParams, ih, List.forall_mem_cons]

attribute [local simp] parts? Form.read? Form.all Form.name Form.fields

theorem itemsWritten_eq (items : List Expression) : itemsWritten items = items.map written := by
  induction items with
  | nil => rfl
  | cons item rest ih => rw [itemsWritten, ih, List.map_cons]

/-- How a parameter is written. -/
def writtenParam (param : String × Expression) : Json :=
  .object [("name", .string param.1), ("value", param.2.written)]

theorem paramsWritten_eq (params : List (String × Expression)) :
    paramsWritten params = params.map writtenParam := by
  induction params with
  | nil => rfl
  | cons param rest ih =>
    rw [paramsWritten, ih, List.map_cons]
    rfl

theorem readParam_written {read : Json → Option Expression} {param : String × Expression}
    (h : read param.2.written = some param.2) :
    readParam? read (writtenParam param) = some param := by
  simp [readParam?, writtenParam, h]

mutual

theorem read_written : ∀ (e : Expression) {fuel : Nat} {inner : Bool}, e.Ordered →
    e.written.depth < fuel → readWithin? fuel inner e.written = some e
  | .value none v, fuel + 1, inner, h, _ => by
    have hordered : v.ordered = v := Json.Ordered.ordered_eq h
    simp [written, readWithin?, hordered]
  | .value (some kind) v, fuel + 1, inner, h, _ => by
    have hordered : v.ordered = v := Json.Ordered.ordered_eq h
    simp [written, readWithin?, hordered, Kind.toJson, Kind.read_fileName]
  | .values items, fuel + 1, inner, h, hdepth => by
    simp only [written, Json.depth, membersDepth] at hdepth
    have hdepth' : itemsDepth (itemsWritten items) < fuel := by omega
    have hitems := list_of_forall (read_itemsWritten items h hdepth')
    rw [← itemsWritten_eq] at hitems
    simp [written, readWithin?, hitems]
  | .operator name operands, fuel + 1, inner, h, hdepth => by
    simp only [written, Json.depth, membersDepth] at hdepth
    have hdepth' : itemsDepth (itemsWritten operands) < fuel := by omega
    have hitems := list_of_forall (read_itemsWritten operands h hdepth')
    rw [← itemsWritten_eq] at hitems
    simp [written, readWithin?, hitems]
  | .function name params, fuel + 1, inner, h, hdepth => by
    simp only [written, Json.depth, membersDepth] at hdepth
    have hdepth' : itemsDepth (paramsWritten params) < fuel := by omega
    have hparams := list_of_forall fun param hparam =>
      readParam_written (read_paramsWritten params h hdepth' param hparam)
    rw [← paramsWritten_eq] at hparams
    simp [written, readWithin?, hparams]
  | .reference name none, fuel + 1, inner, _, _ => by
    simp [written, readWithin?]
  | .reference name (some path), fuel + 1, inner, _, _ => by
    simp [written, readWithin?]

theorem read_itemsWritten : ∀ (items : List Expression) {fuel : Nat}, OrderedItems items →
    itemsDepth (itemsWritten items) < fuel →
    ∀ item ∈ items, readWithin? fuel true item.written = some item
  | [], _, _, _ => List.forall_mem_nil _
  | item :: rest, fuel, h, hdepth => by
    rw [itemsWritten, itemsDepth, Nat.max_lt] at hdepth
    exact List.forall_mem_cons.mpr
      ⟨read_written item h.1 hdepth.1, read_itemsWritten rest h.2 hdepth.2⟩

theorem read_paramsWritten : ∀ (params : List (String × Expression)) {fuel : Nat},
    OrderedParams params → itemsDepth (paramsWritten params) < fuel →
    ∀ param ∈ params, readWithin? fuel true param.2.written = some param.2
  | [], _, _, _ => List.forall_mem_nil _
  | (name, v) :: rest, fuel, h, hdepth => by
    simp only [paramsWritten, itemsDepth, Json.depth, membersDepth] at hdepth
    exact List.forall_mem_cons.mpr
      ⟨read_written v h.1 (by omega), read_paramsWritten rest h.2 (by omega)⟩

end

mutual

/-- What is written is the expression as it is kept, but for the order of the members. -/
theorem written_ordered : ∀ (e : Expression), e.Ordered → e.written.ordered = e.toJson
  | .value none v, h => by
    have hordered : v.ordered = v := Json.Ordered.ordered_eq h
    simp (disch := decide) [written, toJson, hordered]
  | .value (some kind) v, h => by
    have hordered : v.ordered = v := Json.Ordered.ordered_eq h
    simp (disch := decide) [written, toJson, hordered, Kind.toJson]
  | .values items, h => by simp (disch := decide) [written, toJson, itemsWritten_ordered items h]
  | .operator name operands, h => by
    simp (disch := decide) [written, toJson, itemsWritten_ordered operands h]
  | .function name params, h => by
    simp (disch := decide) [written, toJson, paramsWritten_ordered params h]
  | .reference name none, _ => by simp (disch := decide) [written, toJson]
  | .reference name (some path), _ => by simp (disch := decide) [written, toJson]

theorem itemsWritten_ordered : ∀ (items : List Expression), OrderedItems items →
    orderedItems (itemsWritten items) = itemsToJson items
  | [], _ => rfl
  | item :: rest, h => by
    simp (disch := decide) [itemsWritten, itemsToJson, written_ordered item h.1,
      itemsWritten_ordered rest h.2]

theorem paramsWritten_ordered : ∀ (params : List (String × Expression)), OrderedParams params →
    orderedItems (paramsWritten params) = paramsToJson params
  | [], _ => rfl
  | (name, v) :: rest, h => by
    simp (disch := decide) [paramsWritten, paramsToJson, written_ordered v h.1,
      paramsWritten_ordered rest h.2]

end

end Expression

def Attribute.Ordered (entry : Attribute) : Prop := entry.value.Ordered

theorem Attribute.read_written {entry : Attribute} (h : entry.Ordered) :
    read? entry.written = some entry := by
  have hordered : entry.value.ordered = entry.value := Json.Ordered.ordered_eq h
  simp [read?, written, hordered, Kind.toJson, Kind.read_fileName]

theorem Attribute.written_ordered {entry : Attribute} (h : entry.Ordered) :
    entry.written.ordered = entry.toJson := by
  have hordered : entry.value.ordered = entry.value := Json.Ordered.ordered_eq h
  simp (disch := decide) [written, toJson, hordered, Kind.toJson]

theorem FactDeclaration.read_toJson (fact : FactDeclaration) : read? fact.toJson = some fact := by
  simp [read?, toJson]

namespace ActionCall

def Ordered (action : ActionCall) : Prop := Expression.OrderedParams action.params

theorem read_written {action : ActionCall} (h : action.Ordered) :
    read? action.written = some action := by
  have hparams : list? (Expression.readParam? Expression.read?)
      (.array (Expression.paramsWritten action.params)) = some action.params := by
    rw [Expression.paramsWritten_eq]
    exact list_of_forall fun param hparam => Expression.readParam_written
      (Expression.read_written param.2 (Expression.orderedParams_iff.mp h param hparam)
        (Nat.lt_succ_self _))
  simp [read?, written, hparams]

theorem written_ordered {action : ActionCall} (h : action.Ordered) :
    action.written.ordered = action.toJson := by
  simp (disch := decide) [written, toJson, Expression.paramsWritten_ordered action.params h]

end ActionCall

namespace Rule

structure Ordered (rule : Rule) : Prop where
  attributes : ∀ entry ∈ rule.attributes, entry.Ordered
  predicate : rule.predicate.Ordered
  actions : ∀ action ∈ rule.actions, action.Ordered

theorem read_written {rule : Rule} (h : rule.Ordered) : read? rule.written = some rule := by
  have hattributes := list_of_forall fun entry hentry =>
    Attribute.read_written (h.attributes entry hentry)
  have hfacts : list? FactDeclaration.read? (.array (rule.facts.map FactDeclaration.toJson)) =
      some rule.facts := list_of_forall fun fact _ => fact.read_toJson
  have hpredicate : Expression.read? rule.predicate.written = some rule.predicate :=
    Expression.read_written rule.predicate h.predicate (Nat.lt_succ_self _)
  have hactions := list_of_forall fun action haction =>
    ActionCall.read_written (h.actions action haction)
  simp [read?, written, hattributes, hfacts, hpredicate, hactions]

/-- A rule is written as it is kept, but for the order of the members. -/
theorem written_ordered {rule : Rule} (h : rule.Ordered) : rule.written.ordered = rule.toJson := by
  have hattributes := orderedItems_map fun entry hentry =>
    Attribute.written_ordered (h.attributes entry hentry)
  have hfacts : orderedItems (rule.facts.map FactDeclaration.toJson) =
      rule.facts.map FactDeclaration.toJson :=
    orderedItems_map fun fact _ => by simp (disch := decide) [FactDeclaration.toJson]
  have hactions := orderedItems_map fun action haction =>
    ActionCall.written_ordered (h.actions action haction)
  have hpredicate := Expression.written_ordered rule.predicate h.predicate
  simp (disch := decide) [written, toJson, hattributes, hfacts, hactions, hpredicate]

/-- A rule is written with nothing but what is needed to read it. -/
theorem need_covers (rule : Rule) : need.Covers rule.written := by
  have hattributes : Need.Covers
      (.items (.fields [("name", .whole), ("value_type", .whole), ("value", .whole)]))
      (.array (rule.attributes.map Attribute.written)) :=
    Need.covers_items fun entry _ => Need.covers_record
      [("name", .whole, _), ("value_type", .whole, _), ("value", .whole, _)] (by simp)
      (by simp [Need.Covers.whole])
  have hfacts : Need.Covers (.items (.fields [("name", .whole), ("type_name", .whole)]))
      (.array (rule.facts.map FactDeclaration.toJson)) :=
    Need.covers_items fun fact _ => Need.covers_record
      [("name", .whole, _), ("type_name", .whole, _)] (by simp) (by simp [Need.Covers.whole])
  have hparams : ∀ params : List (String × Expression),
      Need.Covers (.items (.fields [("name", .whole), ("value", .whole)]))
        (.array (Expression.paramsWritten params)) := by
    intro params
    rw [Expression.paramsWritten_eq]
    exact Need.covers_items fun param _ => Need.covers_record
      [("name", .whole, _), ("value", .whole, _)] (by simp) (by simp [Need.Covers.whole])
  have hactions : Need.Covers (.items (.fields [("name", .whole),
      ("params", .items (.fields [("name", .whole), ("value", .whole)]))]))
      (.array (rule.actions.map ActionCall.written)) :=
    Need.covers_items fun action _ => Need.covers_record
      [("name", .whole, _), ("params", .items _, .array _)] (by simp)
      (by simp [Need.Covers.whole, hparams])
  exact Need.covers_record [("attributes", _, _), ("facts", _, _), ("predicate", .whole, _),
    ("actions", _, _)] (by simp)
    (by simp [Need.Covers.whole, hattributes, hfacts, hactions])

/-- Rules whose text nests at most 127 arrays and objects, and whose numbers are read back, are read
from it as they are, and compile from it as they do by themselves. The text writes the form in which
rules are kept. Objects in constants list their members by name, as they do in all values that are
read. -/
theorem listText_read {rules : List Rule} (hordered : ∀ rule ∈ rules, rule.Ordered)
    (hnumbers : ∀ n ∈ (listWritten rules).numbers, n.Kept)
    (hdepth : (listWritten rules).depth ≤ 127) :
    (listWritten rules).ordered = .array (rules.map toJson) ∧
    listOfText? (listText rules) = some rules ∧
      ∀ (σ : Type) (compiler : Compiler σ) (now : Instant),
        compiler.compileText now (listText rules) = compiler.compileAll now rules := by
  have hform : (listWritten rules).ordered = .array (rules.map toJson) := by
    have hitems := orderedItems_map fun rule hrule => written_ordered (hordered rule hrule)
    rw [listWritten, Json.ordered, hitems]
  have hneeded : readNeeded? (.items need) (listText rules) = some (listWritten rules) :=
    readNeeded_text hnumbers (Need.covers_items fun rule _ => rule.need_covers) hdepth
  have hread : listOfText? (listText rules) = some rules := by
    rw [listOfText?, hneeded]
    exact list_of_forall fun rule hrule => read_written (hordered rule hrule)
  refine ⟨hform, hread, fun σ compiler now => ?_⟩
  rw [Compiler.compileText, hread]

/-- One half, as a double. -/
def half : Double := ⟨false, 4602678819172646912, by decide⟩

def airlineRule : Rule where
  attributes := [⟨"ruleName", .string, .string "lufthansa"⟩, ⟨"priority", .integer, .ofNat 10⟩]
  facts := [⟨"airline", "Airline"⟩]
  predicate := .and [.equal (.field "airline" "name") (.constant (.string "Lufthansa")),
    .equal (.field "airline" "share") (.constant (.number (.double half))),
    .operator "contains" [.values [.null, .name "airline"],
      .function "codes"
        [("of", .typed .object (.object [("region", .null), ("zone", .array [])]))]]]
  actions := [⟨"record", [("code", .field "airline" "code")]⟩, ⟨"stop", []⟩]

theorem airlineRule_read :
    (∀ rule ∈ [airlineRule], rule.Ordered) ∧
      (∀ n ∈ (listWritten [airlineRule]).numbers, n.Kept) ∧
      (listWritten [airlineRule]).depth = 12 ∧
      listOfText? (listText [airlineRule]) = some [airlineRule] := by
  have hnames : Table.Ordered [("region", Json.null), ("zone", .array [])] :=
    show ["region", "zone"].Pairwise (· < ·) by decide
  have hpredicate : airlineRule.predicate.Ordered := by
    simp [airlineRule, Expression.Ordered, Expression.OrderedItems, Expression.OrderedParams,
      Expression.and, Expression.equal, Expression.field, Expression.constant, Expression.null,
      Expression.name, Expression.typed, Json.Ordered, Json.OrderedItems, Json.OrderedMembers,
      hnames]
  have hordered : ∀ rule ∈ [airlineRule], rule.Ordered :=
    List.forall_mem_singleton.mpr
      { attributes := by simp [airlineRule, Attribute.Ordered, Json.Ordered, Json.ofNat]
        predicate := hpredicate
        actions := by
          simp [airlineRule, ActionCall.Ordered, Expression.OrderedParams, Expression.field,
            Expression.Ordered] }
  have hdepth : (listWritten [airlineRule]).depth = 12 := by decide
  have hshort : half.magnitude = ⟨['5'], 0⟩ := by decide +kernel
  have hhalf : (Number.double half).Kept :=
    Number.kept_of_short (by rw [hshort]; decide) (by rw [hshort]; decide) (by rw [hshort]; decide)
  have hnumbers : ∀ n ∈ (listWritten [airlineRule]).numbers, n.Kept :=
    List.forall_mem_cons.mpr ⟨Number.kept_whole _, List.forall_mem_singleton.mpr hhalf⟩
  have hread := listText_read hordered hnumbers (by rw [hdepth]; decide)
  exact ⟨hordered, hnumbers, hdepth, hread.2.1⟩

end Rule
end Rulebook
