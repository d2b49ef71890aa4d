import Rulebook.Run

/-!
# What evaluations ensure

An evaluation is run from a session and leaves one. Two kinds of statements are composed along its
steps: `Ensures` bounds the results of one run, and `Agree` relates the runs of two evaluations.
Both carry what is known of the sessions through the run; neither says that an evaluation
succeeds.
-/
namespace Rulebook

/-- What a sequence of two steps gives is given by the second one. -/
theorem exists_of_bind_ok {ε α β : Type} {first : Except ε α} {next : α → Except ε β} {b : β}
    (h : (first >>= next) = .ok b) : ∃ a, first = .ok a ∧ next a = .ok b := by
  cases first with
  | error failure => cases h
  | ok a => exact ⟨a, rfl, h⟩

theorem exists_of_map_ok {ε α β : Type} {f : α → β} {first : Except ε α} {b : β}
    (h : first.map f = .ok b) : ∃ a, first = .ok a ∧ f a = b := by
  cases first with
  | error failure => cases h
  | ok a => exact ⟨a, rfl, Except.ok.inj h⟩

namespace Evaluation

variable {σ α β : Type}

@[simp] theorem run_lift (result : Except Failure α) (session : Session σ) :
    (liftExcept result : Evaluation σ α).run session = (result, session) := by
  cases result <;> rfl

theorem run_bind (first : Evaluation σ α) (next : α → Evaluation σ β) (session : Session σ) :
    (first >>= next).run session =
      match first.run session with
      | (.ok a, after) => (next a).run after
      | (.error failure, after) => (.error failure, after) := by
  change (ExceptT.bindCont next (first.run session).1).run (first.run session).2 = _
  rcases first.run session with ⟨_ | _, after⟩ <;> rfl

theorem run_bind_ok {first : Evaluation σ α} {next : α → Evaluation σ β}
    {session after : Session σ} {a : α} (h : first.run session = (.ok a, after)) :
    (first >>= next).run session = (next a).run after := by
  rw [run_bind, h]

theorem run_lift_bind (result : Except Failure α) (next : α → Evaluation σ β)
    (session : Session σ) :
    (liftExcept result >>= next).run session =
      match result with
      | .ok a => (next a).run session
      | .error failure => (.error failure, session) := by
  cases result <;> rfl

theorem ext_run {first other : Evaluation σ α}
    (h : ∀ session, first.run session = other.run session) : first = other :=
  funext h

/-- An attempt has the result of the evaluation as its value. -/
@[simp] theorem run_attempt (evaluation : Evaluation σ α) (session : Session σ) :
    (Run.attempt evaluation).run session =
      (.ok (evaluation.run session).1, (evaluation.run session).2) := rfl

/-- Each run from a session in `P` leaves one in `P`, and has a value in `Q` or a failure in
`E`. -/
structure Ensures (P : Session σ → Prop) (E : Failure → Prop) (evaluation : Evaluation σ α)
    (Q : α → Prop) : Prop where
  session : ∀ s, P s → P (evaluation.run s).2
  value : ∀ s a, P s → (evaluation.run s).1 = .ok a → Q a
  failure : ∀ s f, P s → (evaluation.run s).1 = .error f → E f

namespace Ensures

variable {P : Session σ → Prop} {E : Failure → Prop} {Q R : α → Prop} {S : β → Prop}

theorem pure {a : α} (h : Q a) : Ensures P E (pure a) Q where
  session _ hs := hs
  value _ _ _ ha := by cases ha; exact h
  failure _ _ _ hf := by cases hf

theorem throw {failure : Failure} (h : E failure) :
    Ensures P E (throw failure : Evaluation σ α) Q where
  session _ hs := hs
  value _ _ _ ha := by cases ha
  failure _ _ _ hf := by cases hf; exact h

theorem lift {result : Except Failure α} (hv : ∀ a, result = .ok a → Q a)
    (hf : ∀ failure, result = .error failure → E failure) :
    Ensures P E (liftExcept result) Q := by
  cases result with
  | ok a => exact pure (hv a rfl)
  | error failure => exact throw (hf failure rfl)

/-- A result that is known lifts to its value. -/
theorem lift_ok {result : Except Failure α} {a : α} (hr : result = .ok a) (h : Q a) :
    Ensures P E (liftExcept result) Q := by
  subst hr
  exact pure h

theorem bind {first : Evaluation σ α} {next : α → Evaluation σ β} (hf : Ensures P E first Q)
    (hn : ∀ a, Q a → Ensures P E (next a) S) : Ensures P E (first >>= next) S := by
  have hstep : ∀ s, P s → P ((first >>= next).run s).2 ∧
      (∀ b, ((first >>= next).run s).1 = .ok b → S b) ∧
      ∀ f, ((first >>= next).run s).1 = .error f → E f := by
    intro s hs
    have hmid := hf.session s hs
    rw [run_bind]
    rcases hr : first.run s with ⟨_ | a, after⟩
    · rw [hr] at hmid
      refine ⟨hmid, fun b hb => (by cases hb), fun f he => ?_⟩
      cases he
      exact hf.failure s _ hs (congrArg Prod.fst hr)
    · rw [hr] at hmid
      have hnext := hn a (hf.value s a hs (by rw [hr]))
      exact ⟨hnext.session _ hmid, fun b => hnext.value _ b hmid, fun f => hnext.failure _ f hmid⟩
  exact ⟨fun s hs => (hstep s hs).1, fun s b hs => (hstep s hs).2.1 b,
    fun s f hs => (hstep s hs).2.2 f⟩

theorem mono {evaluation : Evaluation σ α} (h : Ensures P E evaluation Q)
    (hq : ∀ a, Q a → R a) : Ensures P E evaluation R :=
  ⟨h.session, fun s a hs ha => hq a (h.value s a hs ha), h.failure⟩

end Ensures

/-- From related sessions two evaluations have the same result, and leave related sessions. -/
def Agree (S : Session σ → Session σ → Prop) (first other : Evaluation σ α) : Prop :=
  ∀ s t, S s t →
    (first.run s).1 = (other.run t).1 ∧ S (first.run s).2 (other.run t).2

namespace Agree

variable {S : Session σ → Session σ → Prop}

theorem pure (a : α) : Agree S (pure a) (pure a) := fun _ _ hs => ⟨rfl, hs⟩

theorem throw (failure : Failure) :
    Agree S (throw failure : Evaluation σ α) (throw failure) := fun _ _ hs => ⟨rfl, hs⟩

theorem lift (result : Except Failure α) : Agree S (liftExcept result) (liftExcept result) := by
  cases result with
  | ok a => exact pure a
  | error failure => exact throw failure

theorem bind {first first' : Evaluation σ α} {next next' : α → Evaluation σ β}
    (hf : Agree S first first') (hn : ∀ a, Agree S (next a) (next' a)) :
    Agree S (first >>= next) (first' >>= next') := by
  intro s t hs
  obtain ⟨hresult, hsession⟩ := hf s t hs
  rw [run_bind, run_bind]
  rcases hr : first.run s with ⟨result, after⟩
  rcases hr' : first'.run t with ⟨result', after'⟩
  rw [hr, hr'] at hresult hsession
  obtain rfl : result = result' := hresult
  cases result with
  | error failure => exact ⟨rfl, hsession⟩
  | ok a => exact hn a after after' hsession

theorem attempt {first other : Evaluation σ α} (h : Agree S first other) :
    Agree S (Run.attempt first) (Run.attempt other) := by
  intro s t hs
  obtain ⟨hresult, hsession⟩ := h s t hs
  exact ⟨congrArg Except.ok hresult, hsession⟩

end Agree

/-- Evaluations that agree from equal sessions are the same. -/
theorem eq_of_agree {first other : Evaluation σ α} (h : Agree Eq first other) :
    first = other := by
  refine ext_run fun session => ?_
  obtain ⟨hresult, hsession⟩ := h session session rfl
  exact Prod.ext hresult hsession

end Evaluation
end Rulebook
