import Rulebook.Proofs.Modes

/-!
# The trace of a run

On each tuple some of the rules fire, in the order of the ruleset, and all of them apply to it; the
trace of a run puts these one after the other. The stop signal is looked at between tuples only: a
run that ends is the run of its first tuples without that look, and the signal went up on the last
of them or not at all.
-/
namespace Rulebook

variable {σ : Type} {handler : FailureHandler} {rule : CompiledRule σ}
  {rules rest : List (CompiledRule σ)} {sequential : Bool} {index : Nat} {tuple : Tuple}
  {tuples : List Tuple} {session last : Session σ}

namespace Run

variable {run after : Run}

/-- The later run has fired some of the rules on the tuple, in their order, and nothing else. -/
def Fires (index : Nat) (tuple : Tuple) (rules : List (CompiledRule σ)) (run after : Run) : Prop :=
  ∃ firing : List (CompiledRule σ), firing.Sublist rules ∧
    (∀ rule ∈ firing, rule.appliesTo tuple = true) ∧
    after.fired = run.fired ++ firing.map fun rule => ⟨rule.id, index⟩

theorem Fires.none (h : Same run after) : Fires index tuple rules run after := by
  refine ⟨[], List.nil_sublist _, List.forall_mem_nil _, ?_⟩
  rw [List.map_nil, List.append_nil, h.2]

theorem Fires.skip {between : Run} (hfired : between.fired = run.fired)
    (h : Fires index tuple rest between after) : Fires index tuple (rule :: rest) run after := by
  obtain ⟨firing, hsublist, happly, hafter⟩ := h
  exact ⟨firing, hsublist.cons rule, happly, by rw [hafter, hfired]⟩

theorem Fires.keep {between : Run} (happlies : rule.appliesTo tuple = true)
    (hfired : between.fired = run.fired ++ [⟨rule.id, index⟩])
    (h : Fires index tuple rest between after) : Fires index tuple (rule :: rest) run after := by
  obtain ⟨firing, hsublist, happly, hafter⟩ := h
  refine ⟨rule :: firing, hsublist.cons_cons rule, List.forall_mem_cons.mpr ⟨happlies, happly⟩, ?_⟩
  rw [hafter, hfired, List.map_cons, List.append_assoc, List.singleton_append]

end Run

namespace Ruleset

variable {ruleset : Ruleset σ} {mode : RunMode} {facts : List Fact} {start after : Run}

namespace Traced

variable {n k : Nat}

end Traced
end Ruleset

namespace Engine

variable {engine after : Engine σ} {source : RuleSource} {now : Instant} {request : Request σ}
  {report : Report σ}

end Engine
end Rulebook
