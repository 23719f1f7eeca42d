import ServiceUnits.Edge

namespace ServiceUnits

/-- The dependency keys that a unit may declare towards its peers. -/
inductive Relation where
  | requires
  | requisite
  | wants
  | bindsTo
  | partOf
  | upholds
  | requiredBy
  | requisiteOf
  | wantedBy
  | boundBy
  | consistsOf
  | upheldBy
  | conflicts
  | conflictedBy
  | before
  | after
  | onSuccess
  | onSuccessOf
  | onFailure
  | onFailureOf
  | triggers
  | triggeredBy
  | propagatesReloadTo
  | reloadPropagatedFrom
  | propagatesStopTo
  | stopPropagatedFrom
deriving DecidableEq

namespace Relation

def all : List Relation :=
  [requires, requisite, wants, bindsTo, partOf, upholds, requiredBy, requisiteOf, wantedBy, boundBy,
    consistsOf, upheldBy, conflicts, conflictedBy, before, after, onSuccess, onSuccessOf, onFailure,
    onFailureOf, triggers, triggeredBy, propagatesReloadTo, reloadPropagatedFrom, propagatesStopTo,
    stopPropagatedFrom]

def key : Relation → String
  | requires => "Requires"
  | requisite => "Requisite"
  | wants => "Wants"
  | bindsTo => "BindsTo"
  | partOf => "PartOf"
  | upholds => "Upholds"
  | requiredBy => "RequiredBy"
  | requisiteOf => "RequisiteOf"
  | wantedBy => "WantedBy"
  | boundBy => "BoundBy"
  | consistsOf => "ConsistsOf"
  | upheldBy => "UpheldBy"
  | conflicts => "Conflicts"
  | conflictedBy => "ConflictedBy"
  | before => "Before"
  | after => "After"
  | onSuccess => "OnSuccess"
  | onSuccessOf => "OnSuccessOf"
  | onFailure => "OnFailure"
  | onFailureOf => "OnFailureOf"
  | triggers => "Triggers"
  | triggeredBy => "TriggeredBy"
  | propagatesReloadTo => "PropagatesReloadTo"
  | reloadPropagatedFrom => "ReloadPropagatedFrom"
  | propagatesStopTo => "PropagatesStopTo"
  | stopPropagatedFrom => "StopPropagatedFrom"

def ofKey? (text : String) : Option Relation := all.find? (·.key = text)

/-- The relation of the peer towards the unit that declares this one. -/
def reverse : Relation → Relation
  | requires => requiredBy
  | requiredBy => requires
  | requisite => requisiteOf
  | requisiteOf => requisite
  | wants => wantedBy
  | wantedBy => wants
  | bindsTo => boundBy
  | boundBy => bindsTo
  | partOf => consistsOf
  | consistsOf => partOf
  | upholds => upheldBy
  | upheldBy => upholds
  | conflicts => conflictedBy
  | conflictedBy => conflicts
  | before => after
  | after => before
  | onSuccess => onSuccessOf
  | onSuccessOf => onSuccess
  | onFailure => onFailureOf
  | onFailureOf => onFailure
  | triggers => triggeredBy
  | triggeredBy => triggers
  | propagatesReloadTo => reloadPropagatedFrom
  | reloadPropagatedFrom => propagatesReloadTo
  | propagatesStopTo => stopPropagatedFrom
  | stopPropagatedFrom => propagatesStopTo

/-- The effects on the peer of a unit that declares the relation. -/
def effects : Relation → List Effect
  | requires | bindsTo => [.addStart, .startOnStarted]
  | requisite => [.addVerify]
  | wants => [.addStartNonreq, .tryStartOnStarted]
  | upholds => [.addStartNonreq, .startOnStarted]
  | requiredBy | requisiteOf | consistsOf => [.propagatesStopTo, .propagatesRestartTo]
  | boundBy => [.propagatesStopTo, .propagatesRestartTo, .stopOnStopped]
  | conflicts => [.addStop, .stopOnStarted]
  | conflictedBy => [.addStopNonreq, .stopOnStarted]
  | before => [.before]
  | after => [.after]
  | onSuccess => [.onSuccess]
  | onFailure => [.onFailure]
  | propagatesReloadTo => [.propagatesReloadTo]
  | propagatesStopTo => [.propagatesStopTo, .stopOnStopped]
  | partOf | wantedBy | upheldBy | onSuccessOf | onFailureOf | triggers | triggeredBy
  | reloadPropagatedFrom | stopPropagatedFrom => []

def edge (r : Relation) : Edge := .ofEffects r.effects

theorem mem_all (r : Relation) : r ∈ all := by cases r <;> decide

theorem reverse_reverse (r : Relation) : r.reverse.reverse = r := by cases r <;> rfl

theorem ofKey?_key (r : Relation) : ofKey? r.key = some r := by cases r <;> decide

theorem key_of_ofKey? {text : String} {r : Relation} (h : ofKey? text = some r) : r.key = text := by
  simpa using List.find?_some h

theorem key_injective {r s : Relation} (h : r.key = s.key) : r = s := by
  have := ofKey?_key r
  rw [h, ofKey?_key] at this
  exact (Option.some.inj this).symm

end Relation
end ServiceUnits
