import Bennu.PreadmittedTuple

/-! `execute_tuple_construction`: a callback produces the elements one after another into the
scratch slots, and a failure at any point unwinds those completed before it. -/
namespace Bennu

/-- `TupleElementExecutionResult`; a failed one may still carry a value. -/
structure TupleElementExecution (ε : Type) where
  ok : Bool
  value : Value
  error : ε

/-- A `TupleElementExecutor` with what it keeps in its execution context. -/
abbrev TupleElementExecutor (σ ε : Type) := σ → Host → Nat → σ × Host × TupleElementExecution ε

/-- What a failed construction reports; the texts are those of its errors. -/
inductive ConstructionFailure (ε : Type) where
  | tuple (failure : TupleFailure)
  | executorMissing
  | invalidScratch (invariant : ValueInvariant)
  | element (error : ε)
  | invalidElement (invariant : ValueInvariant)
  deriving DecidableEq, Repr

def ConstructionFailure.staticMessage {ε : Type} : ConstructionFailure ε → Option String
  | .executorMissing => some "tuple element executor is null"
  | .invalidScratch _ => some "tuple construction scratch contains an invalid owner"
  | .invalidElement _ => some "tuple element executor returned an invalid owner"
  | .tuple _ => none
  | .element _ => none

/-- `move_value`: the value and what is left of its source. -/
def moveValue (v : Value) : Value × Value :=
  if v.claimed then (v,invalidConstructionValue) else (invalidConstructionValue,v)

/-- What `destroy_proven_value` leaves of a claimed value. -/
def destroyedValue : Value := { makeIntValue 0 with claimed := false }

/-- The error of a value that was not accepted; `invalid` names whose it was. -/
def refusedValue {ε : Type} (profile : Account) (total : Nat)
    (invalid : ValueInvariant → ConstructionFailure ε) : ValidationFailure → ConstructionFailure ε
  | .resource reason =>
    .tuple (.fault (profile.makeResourceFailure (hostReason reason) (some total) none none none))
  | .invalid value => invalid value.invariant

section Execution

variable {σ ε : Type} (profile : Account) (total : Nat)

/-- Validate the scratch slots that still hold something. -/
def validateScratch : HostFailureInjection → Host → List Value →
    HostFailureInjection × Host × Option (ConstructionFailure ε)
  | f,h,[] => (f,h,none)
  | f,h,scratch :: rest =>
    if !scratch.claimed then validateScratch f h rest
    else match validateValue f h scratch with
      | (used,next,some failure) =>
        (used,next,some (refusedValue profile total .invalidScratch failure))
      | (used,next,none) => validateScratch used next rest

/-- Where an execution stands: the callback's context, the failure injection, the host and
the slots, those completed first. -/
structure ConstructionState (σ : Type) where
  context : σ
  injection : HostFailureInjection
  host : Host
  slots : List Value

open PreadmittedTupleAssembly (destroySlots)

/-- A failed execution of the element: what it produced is destroyed, unless it is no valid
value, which its slot keeps. -/
def abandonElement (context : σ) (f : HostFailureInjection) (h : Host) (completed : List Value)
    (slot : Value) (rest : List Value) (value : Value) : ConstructionState σ :=
  let emptied := completed.map fun _ => destroyedValue
  if value.claimed then
    match validateValue noHostFailure h value with
    | (_,next,none) =>
      ⟨context,f,destroySlots (next.destroyProvenValue value).1 completed,emptied ++ slot :: rest⟩
    | (_,next,some _) =>
      ⟨context,f,destroySlots (next.dropValue slot) completed,emptied ++ value :: rest⟩
  else ⟨context,f,(destroySlots h completed).dropValue value,emptied ++ slot :: rest⟩

/-- The loop over the elements: `completed` are done, the other slots are ahead. -/
def executeElements (execute : TupleElementExecutor σ ε) :
    σ → HostFailureInjection → Host → List Value → List Value →
      ConstructionState σ × Option (ConstructionFailure ε)
  | context,f,h,completed,[] => (⟨context,f,h,completed⟩,none)
  | context,f,h,completed,slot :: rest =>
    let (after,produced,element) := execute context h completed.length
    if !element.ok then
      (abandonElement after f produced completed slot rest element.value,some (.element element.error))
    else match validateValue f produced element.value with
      | (used,next,some failure) =>
        let (moved,left) := moveValue element.value
        (⟨after,used,(destroySlots (next.dropValue slot) completed).dropValue left,
          completed.map (fun _ => destroyedValue) ++ moved :: rest⟩,
          some (refusedValue profile total .invalidElement failure))
      | (used,next,none) =>
        executeElements execute after used (next.dropValue slot) (completed ++ [element.value]) rest

end Execution

/-- Destroy what the scratch slots hold. -/
def clearScratch (h : Host) (scratch : List Value) : Host × List Value :=
  (scratch.foldl (fun g v => (g.destroyProvenValue v).1) h,
    scratch.map fun v => if v.claimed then destroyedValue else v)

def executeTupleConstruction {σ ε : Type} (execute : Option (TupleElementExecutor σ ε)) (context : σ)
    (f : HostFailureInjection) (h : Host) (r : EvaluationResources) (scratch : List Value) :
    ConstructionState σ × Except (ConstructionFailure ε) Value :=
  match h.acquireValidated r with
  | none => (⟨context,f,h,scratch⟩,.error (.tuple (.fault missingStateFault)))
  | some state => match state.account.validateTupleProfile with
    | .error fault => (⟨context,f,h,scratch⟩,.error (.tuple (.fault fault)))
    | .ok _ => match execute with
      | none => (⟨context,f,h,scratch⟩,.error .executorMissing)
      | some execute => match validateScratch state.account scratch.length f h scratch with
        | (used,next,some failure) => (⟨context,used,next,scratch⟩,.error failure)
        | (used,next,none) =>
          let (cleared,slots) := clearScratch next scratch
          match executeElements state.account scratch.length execute context used cleared [] slots with
          | (ended,some failure) => (ended,.error failure)
          | (ended,none) => match makeTupleValue ended.injection ended.host r ended.slots with
            | (last,made,left,.ok v) => ({ ended with injection := last, host := made, slots := left },.ok v)
            | (last,denied,left,.error failure) =>
              ({ ended with
                injection := last
                host := PreadmittedTupleAssembly.destroySlots denied left
                slots := left.map fun _ => destroyedValue },.error (.tuple failure))

end Bennu
