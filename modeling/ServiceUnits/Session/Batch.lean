import ServiceUnits.Session

namespace ServiceUnits

/-- A scheduler: what being given a unit does to its state. -/
structure Scheduler (σ : Type) where
  loadUnit : σ → Handover → σ

namespace Scheduler

/-- Units are printed as they come. -/
def text : Scheduler String := ⟨fun printed h => printed ++ Report.unlines (Report.textLines h)⟩

/-- The edges of all units are collected. -/
def dot : Scheduler (List String) := ⟨fun lines h => lines ++ Report.statements h⟩

end Scheduler

/-- What a loop over some units keeps: the state of the scheduler, and whether a unit has failed. -/
structure Batch (σ : Type) where
  state : σ
  failed : Bool

namespace Batch

variable {σ : Type}

/-- One more unit is loaded. A unit that does not resolve leaves the scheduler alone. -/
def load (s : Scheduler σ) (r : Resolver) (b : Batch σ) (name : String) : Batch σ :=
  match r.resolve name with
  | .ok u => ⟨s.loadUnit b.state u.handover, b.failed⟩
  | .error _ => ⟨b.state, true⟩

def run (s : Scheduler σ) (r : Resolver) (start : σ) (names : List String) : Batch σ :=
  names.foldl (load s r) ⟨start, false⟩

end Batch
end ServiceUnits
