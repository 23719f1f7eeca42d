namespace ServiceUnits

/-- What a scheduler does to the peer of an edge, in the order of the bits. -/
inductive Effect where
  /-- For a start job, enqueue a required start job on the peer. -/
  | addStart
  /-- For a start job, enqueue a start job on the peer and ignore its result. -/
  | addStartNonreq
  /-- For a start job, enqueue a required verify job on the peer. -/
  | addVerify
  /-- For a start job, enqueue a required stop job on the peer. -/
  | addStop
  /-- For a start job, enqueue a stop job on the peer and ignore its result. -/
  | addStopNonreq
  /-- For a stop job, enqueue a stop job on the peer. -/
  | propagatesStopTo
  /-- For a restart job, enqueue a restart job on the peer if it runs. -/
  | propagatesRestartTo
  /-- For a reload job, enqueue a reload job on the peer if it runs. -/
  | propagatesReloadTo
  /-- On an unexpected start, start the peer. -/
  | startOnStarted
  /-- On an unexpected start, start the peer unless that reverses a job to come. -/
  | tryStartOnStarted
  /-- On an unexpected start, stop the peer. -/
  | stopOnStarted
  /-- On an unexpected stop, stop the peer. -/
  | stopOnStopped
  /-- On success, start the peer. -/
  | onSuccess
  /-- On failure, start the peer. -/
  | onFailure
  /-- Run after a job of the peer. -/
  | after
  /-- Run before a job of the peer. -/
  | before
deriving DecidableEq

namespace Effect

def all : List Effect :=
  [addStart, addStartNonreq, addVerify, addStop, addStopNonreq, propagatesStopTo,
    propagatesRestartTo, propagatesReloadTo, startOnStarted, tryStartOnStarted, stopOnStarted,
    stopOnStopped, onSuccess, onFailure, after, before]

def label : Effect → String
  | addStart => "AddStart"
  | addStartNonreq => "AddStartNonreq"
  | addVerify => "AddVerify"
  | addStop => "AddStop"
  | addStopNonreq => "AddStopNonreq"
  | propagatesStopTo => "PropagatesStopTo"
  | propagatesRestartTo => "PropagatesRestartTo"
  | propagatesReloadTo => "PropagatesReloadTo"
  | startOnStarted => "StartOnStarted"
  | tryStartOnStarted => "TryStartOnStarted"
  | stopOnStarted => "StopOnStarted"
  | stopOnStopped => "StopOnStopped"
  | onSuccess => "OnSuccess"
  | onFailure => "OnFailure"
  | after => "After"
  | before => "Before"

def index (e : Effect) : Nat := e.ctorIdx

theorem mem_all (e : Effect) : e ∈ all := by cases e <;> decide

end Effect

/-- What an edge from a unit to its peer asks the scheduler to do: a set of effects, kept as a mask.
-/
structure Edge where
  bits : BitVec 16
deriving DecidableEq

namespace Edge

def none : Edge := ⟨0⟩

def isNone (e : Edge) : Bool := e.bits = 0

def union (a b : Edge) : Edge := ⟨a.bits ||| b.bits⟩

instance : OrOp Edge := ⟨union⟩

def has (e : Edge) (x : Effect) : Bool := e.bits.getLsbD x.index

def single (x : Effect) : Edge := ⟨BitVec.twoPow 16 x.index⟩

def ofEffects (xs : List Effect) : Edge := xs.foldl (fun e x => e ||| single x) none

/-- The edge with these bits; there are sixteen. -/
def ofBits? (n : Nat) : Option Edge := if n < Nat.pow 2 16 then some ⟨.ofNat 16 n⟩ else .none

def truncate (n : Nat) : Edge := ⟨.ofNat 16 n⟩

def text (e : Edge) : String :=
  if e.isNone then "none"
  else "|".intercalate ((Effect.all.filter e.has).map Effect.label)

theorem has_union (a b : Edge) (x : Effect) : (a ||| b).has x = (a.has x || b.has x) := by
  change (a.bits ||| b.bits).getLsbD x.index = _
  simp [has]

theorem has_none (x : Effect) : none.has x = false := by simp [has, none]

end Edge
end ServiceUnits
