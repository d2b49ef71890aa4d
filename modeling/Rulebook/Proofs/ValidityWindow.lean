import Rulebook.Compiler

/-!
# The window of validity

A rule whose dates can be read is valid from its start on and before its end, and a date that cannot
be read is a failure of the rule. The start is looked at first: a rule that has not started is left
out without a look at its end. So an end that cannot be read goes unnoticed until then, and whether
the rule is rejected depends on the instant. `Rule.windowLaw_iff` says that nothing else stands
between the code and the law.
-/
namespace Rulebook

namespace Instant

def Precedes (a b : Instant) : Prop :=
  a.seconds < b.seconds ∨ a.seconds = b.seconds ∧ a.nanos < b.nanos

theorem compare_eq_lt {a b : Instant} : a.compare b = .lt ↔ a.Precedes b := by
  rw [compare, Ordering.then_eq_lt, Int.compare_eq_lt, Int.compare_eq_eq, Nat.compare_eq_lt,
    Precedes]

end Instant

namespace Rule

variable {rule : Rule} {name : String} {now : Instant}

/-- The attribute is a text that denotes the instant. -/
def IsDated (rule : Rule) (name : String) (instant : Instant) : Prop :=
  ∃ entry text, rule.attribute? name = some entry ∧ entry.value = .string text ∧
    Instant.parse? text = some instant

/-- The attribute is there and is not null, but denotes no instant. -/
def IsMisdated (rule : Rule) (name : String) : Prop :=
  ∃ entry, rule.attribute? name = some entry ∧ entry.value ≠ .null ∧
    ∀ instant, ¬ rule.IsDated name instant

/-- A date that is missing or null imposes nothing. -/
def InWindow (rule : Rule) (now : Instant) : Prop :=
  (∀ start, rule.IsDated "startDate" start → ¬ now.Precedes start) ∧
    ∀ expiry, rule.IsDated "expireDate" expiry → now.Precedes expiry

def StartsAfter (rule : Rule) (now : Instant) : Prop :=
  ∃ start, rule.IsDated "startDate" start ∧ now.Precedes start

/-- What the dates of a rule are meant to do at an instant. -/
structure WindowLaw (rule : Rule) (now : Instant) : Prop where
  rejected : (∃ failure, rule.isValidAt now = .error failure) ↔
    rule.IsMisdated "startDate" ∨ rule.IsMisdated "expireDate"
  blamed : ∀ failure, rule.isValidAt now = .error failure → failure.isOfRule = true
  passes : ∀ valid, rule.isValidAt now = .ok valid → (valid = true ↔ rule.InWindow now)

theorem IsDated.unique {instant other : Instant} (h : rule.IsDated name instant)
    (h' : rule.IsDated name other) : instant = other := by
  obtain ⟨entry, text, hentry, hvalue, hparse⟩ := h
  obtain ⟨entry', text', hentry', hvalue', hparse'⟩ := h'
  cases hentry.symm.trans hentry'
  cases hvalue.symm.trans hvalue'
  exact Option.some.inj (hparse.symm.trans hparse')

theorem IsDated.not_misdated {instant : Instant} (h : rule.IsDated name instant) :
    ¬ rule.IsMisdated name :=
  fun ⟨_, _, _, hnone⟩ => hnone instant h

theorem IsMisdated.not_dated (h : rule.IsMisdated name) (instant : Instant) :
    ¬ rule.IsDated name instant :=
  fun hdated => hdated.not_misdated h

/-- A bound is read off its attribute alone, and fails only where that is no date. -/
theorem bound_cases (rule : Rule) (name : String) :
    (rule.IsMisdated name ∧
      ∃ failure, rule.bound? name = .error failure ∧ failure.isOfRule = true) ∨
    (∃ instant, rule.IsDated name instant ∧ rule.bound? name = .ok (some instant)) ∨
    (¬ rule.IsMisdated name ∧ (∀ instant, ¬ rule.IsDated name instant) ∧
      rule.bound? name = .ok none) := by
  unfold bound?
  cases hentry : rule.attribute? name with
  | none => simp [IsMisdated, IsDated, hentry]
  | some entry =>
    cases hvalue : entry.value with
    | null => simp [IsMisdated, IsDated, hentry, hvalue]
    | string text =>
      cases hparse : Instant.parse? text with
      | none => simp [IsMisdated, IsDated, hentry, hvalue, hparse, Failure.isOfRule]
      | some instant => simp [IsDated, hentry, hvalue, hparse]
    | bool | number | array | object => simp [IsMisdated, IsDated, hentry, hvalue, Failure.isOfRule]

/-- Before its start a rule is left out, whatever its end is. -/
theorem isValidAt_of_startsAfter (h : rule.StartsAfter now) : rule.isValidAt now = .ok false := by
  obtain ⟨start, hstart, hahead⟩ := h
  rcases bound_cases rule "startDate" with ⟨hmis, -⟩ | ⟨other, hother, hbound⟩ | ⟨-, hnone, -⟩
  · exact absurd hmis hstart.not_misdated
  · have hcompare : now.compare other = .lt :=
      Instant.compare_eq_lt.mpr (hstart.unique hother ▸ hahead)
    simp [isValidAt, hbound, bind, Except.bind, hcompare, pure, Except.pure]
  · exact absurd hstart (hnone start)

/-- From its start on only the end of a rule counts. -/
theorem isValidAt_of_started (hstart : ¬ rule.IsMisdated "startDate")
    (hopen : ¬ rule.StartsAfter now) :
    rule.isValidAt now =
      (rule.bound? "expireDate").map fun expiry =>
        !expiry.any fun expiry => now.compare expiry ≠ .lt := by
  have hrest : ∀ bound : Option Instant, rule.bound? "startDate" = .ok bound →
      bound.any (fun start => now.compare start = .lt) = false →
      rule.isValidAt now =
        (rule.bound? "expireDate").map fun expiry =>
          !expiry.any fun expiry => now.compare expiry ≠ .lt := by
    intro bound hbound hany
    simp only [isValidAt, hbound, bind, Except.bind, hany, Bool.false_eq_true, if_false]
    cases rule.bound? "expireDate" <;> rfl
  rcases bound_cases rule "startDate" with ⟨hmis, -⟩ | ⟨start, hdated, hbound⟩ | ⟨-, -, hbound⟩
  · exact absurd hmis hstart
  · refine hrest (some start) hbound ?_
    have hnot : ¬ now.compare start = .lt :=
      fun h => hopen ⟨start, hdated, Instant.compare_eq_lt.mp h⟩
    simp [hnot]
  · exact hrest none hbound rfl

/-- The outcomes of the check: it stops at a start that is no date or lies ahead, and looks at the
end otherwise. -/
theorem isValidAt_cases (rule : Rule) (now : Instant) :
    (rule.StartsAfter now ∧ rule.isValidAt now = .ok false) ∨
    ¬ rule.StartsAfter now ∧
      ((rule.IsMisdated "startDate" ∨ rule.IsMisdated "expireDate") ∧
          (∃ failure, rule.isValidAt now = .error failure ∧ failure.isOfRule = true) ∨
        (¬ rule.IsMisdated "startDate" ∧ ¬ rule.IsMisdated "expireDate") ∧
          ∃ valid, rule.isValidAt now = .ok valid ∧ (valid = true ↔
            ∀ expiry, rule.IsDated "expireDate" expiry → now.Precedes expiry)) := by
  by_cases hahead : rule.StartsAfter now
  · exact .inl ⟨hahead, isValidAt_of_startsAfter hahead⟩
  refine .inr ⟨hahead, ?_⟩
  by_cases hstart : rule.IsMisdated "startDate"
  · rcases bound_cases rule "startDate" with ⟨-, failure, hbound, hblamed⟩ | ⟨start, hdated, -⟩ |
      ⟨hnot, -⟩
    · exact .inl ⟨.inl hstart, failure, by rw [isValidAt, hbound]; rfl, hblamed⟩
    · exact absurd hdated (hstart.not_dated start)
    · exact absurd hstart hnot
  rw [isValidAt_of_started hstart hahead]
  rcases bound_cases rule "expireDate" with ⟨hmis, failure, hbound, hblamed⟩ |
    ⟨expiry, hdated, hbound⟩ | ⟨hnot, hnone, hbound⟩
  · exact .inl ⟨.inr hmis, failure, by rw [hbound]; rfl, hblamed⟩
  · have hall : now.Precedes expiry ↔
        ∀ other, rule.IsDated "expireDate" other → now.Precedes other :=
      ⟨fun h other hother => hdated.unique hother ▸ h, fun h => h expiry hdated⟩
    refine .inr ⟨⟨hstart, hdated.not_misdated⟩, _, by rw [hbound]; rfl, ?_⟩
    rw [← hall, ← Instant.compare_eq_lt]
    simp
  · exact .inr ⟨⟨hstart, hnot⟩, true, by rw [hbound]; rfl, by simp [hnone]⟩

theorem InWindow.not_startsAfter (h : rule.InWindow now) : ¬ rule.StartsAfter now :=
  fun ⟨start, hstart, hahead⟩ => h.1 start hstart hahead

/-- The law holds except before the start of a rule whose end cannot be read: there the rule is left
out without a failure. -/
theorem windowLaw_iff (rule : Rule) (now : Instant) :
    rule.WindowLaw now ↔ ¬ (rule.StartsAfter now ∧ rule.IsMisdated "expireDate") := by
  rcases isValidAt_cases rule now with ⟨hahead, hvalid⟩ | ⟨hahead, ⟨hmis, failure, hvalid, hblamed⟩ |
    ⟨hdates, valid, hvalid, hinside⟩⟩
  · have hstart : ¬ rule.IsMisdated "startDate" := by
      obtain ⟨start, hdated, -⟩ := hahead
      exact hdated.not_misdated
    constructor
    · rintro hlaw ⟨-, hmis⟩
      obtain ⟨failure, hfailure⟩ := hlaw.rejected.mpr (.inr hmis)
      cases hvalid.symm.trans hfailure
    · intro hnot
      have hexpiry : ¬ rule.IsMisdated "expireDate" := fun h => hnot ⟨hahead, h⟩
      refine ⟨by simp [hvalid, hstart, hexpiry], by simp [hvalid], ?_⟩
      rintro _ hok
      cases hvalid.symm.trans hok
      refine ⟨fun h => ?_, fun h => absurd hahead h.not_startsAfter⟩
      cases h
  · refine ⟨fun _ h => hahead h.1, fun _ => ⟨⟨fun _ => hmis, fun _ => ⟨failure, hvalid⟩⟩, ?_, ?_⟩⟩
    · rintro _ hother
      cases hvalid.symm.trans hother
      exact hblamed
    · rintro _ hok
      cases hvalid.symm.trans hok
  · refine ⟨fun _ h => hahead h.1, fun _ => ⟨by simp [hvalid, hdates], by simp [hvalid], ?_⟩⟩
    rintro _ hok
    cases hvalid.symm.trans hok
    rw [hinside, InWindow]
    exact ⟨fun h => ⟨fun start hstart h' => hahead ⟨start, hstart, h'⟩, h⟩, And.right⟩

/-- A rule for the thirties, whose end is no date. -/
def unendingRule : Rule where
  attributes := [⟨"ruleName", .string, .string "d"⟩, ⟨"startDate", .string, .string "2030-01-01"⟩,
    ⟨"expireDate", .string, .string "tomorrow"⟩]
  facts := []
  predicate := .value none (.bool true)
  actions := []

/-- In June 2024 the rule is left out without a failure, and in June 2031 it is rejected. -/
theorem unendingRule_unnoticed :
    unendingRule.IsMisdated "expireDate" ∧
    unendingRule.isValidAt ⟨1717200000, 0⟩ = .ok false ∧
    (∃ failure, unendingRule.isValidAt ⟨1938038400, 0⟩ = .error failure) ∧
    ¬ unendingRule.WindowLaw ⟨1717200000, 0⟩ := by
  have hstart : Instant.parse? "2030-01-01" = some ⟨1893456000, 0⟩ := by decide +kernel
  have hend : Instant.parse? "tomorrow" = none := by decide +kernel
  have hmis : unendingRule.IsMisdated "expireDate" := by
    refine ⟨⟨"expireDate", .string, .string "tomorrow"⟩, rfl, fun h => (by cases h), ?_⟩
    rintro instant ⟨entry, text, hentry, hvalue, hparse⟩
    cases hentry
    cases hvalue
    cases hend.symm.trans hparse
  have hahead : unendingRule.StartsAfter ⟨1717200000, 0⟩ :=
    ⟨⟨1893456000, 0⟩, ⟨_, _, rfl, rfl, hstart⟩, .inl (by decide)⟩
  have hbefore := isValidAt_of_startsAfter hahead
  refine ⟨hmis, hbefore, ?_, fun hlaw => ?_⟩
  · have hdated : unendingRule.IsDated "startDate" ⟨1893456000, 0⟩ := ⟨_, _, rfl, rfl, hstart⟩
    have hstarted : ¬ unendingRule.StartsAfter ⟨1938038400, 0⟩ := by
      rintro ⟨start, hother, hahead⟩
      cases hdated.unique hother
      revert hahead
      simp [Instant.Precedes]
    rcases isValidAt_cases unendingRule ⟨1938038400, 0⟩ with ⟨hahead, -⟩ |
      ⟨-, ⟨-, failure, hfailure, -⟩ | ⟨⟨-, hnot⟩, -⟩⟩
    · exact absurd hahead hstarted
    · exact ⟨failure, hfailure⟩
    · exact absurd hmis hnot
  · obtain ⟨failure, hfailure⟩ := hlaw.rejected.mpr (.inr hmis)
    cases hbefore.symm.trans hfailure

end Rule
end Rulebook
