import Mathlib

/-! Handles that mirror one locked record. Every handle keeps a copy of the
shared configuration, counters and generation. Operations take the lock, load
the copy, change its counters and store them back; between two locked sections
other code may run, and may start operations of its own. -/
namespace MirroredState

variable {Thread Handle Operation Config Counters : Type}

/-- The shared record, and what a handle copies of it. -/
structure Record (Config Counters : Type) where
  config : Config
  counters : Counters
  version : Nat
  deriving DecidableEq, Repr

/-- A handle that is not attached can start no operation that needs the context. -/
structure Mirror (Config Counters : Type) where
  record : Record Config Counters
  attached : Bool
  deriving DecidableEq, Repr

inductive UpdateOutcome where
  | updated | staleSnapshot | versionExhausted
  deriving DecidableEq, Repr

/-- Publish the configuration of a mirror. The result holds the outcome, the
shared record and the mirror. Generations are unsigned and wrap past `last`. -/
def publish (last : Nat) (shared mirror : Record Config Counters) :
    UpdateOutcome × Record Config Counters × Record Config Counters :=
  if mirror.version ≠ shared.version then (.staleSnapshot,shared,shared)
  else if shared.version = last then (.versionExhausted,shared,mirror)
  else
    let version := (shared.version + 1) % (last + 1)
    (.updated,{ shared with config := mirror.config, version },{ mirror with version })

/-- What one operation does, one atomic step after another. -/
inductive Script (Handle Config Counters : Type) where
  | done
  | enter (next : Script Handle Config Counters)
  | leave (next : Script Handle Config Counters)
  /-- Load the mirror and arm the write-back. -/
  | beginSync (next : Script Handle Config Counters)
  /-- Store the counters of the mirror. Does nothing once disarmed. -/
  | finishSync (next : Script Handle Config Counters)
  /-- Change the counters of the mirror. -/
  | compute (change : Config → Counters → Counters)
      (next : Config → Counters → Script Handle Config Counters)
  /-- Change the shared counters directly. -/
  | adjust (change : Config → Counters → Counters) (next : Script Handle Config Counters)
  /-- Code of the caller runs, and may start operations. -/
  | observe (next : Script Handle Config Counters)
  | refresh (next : Script Handle Config Counters)
  | update (next : Script Handle Config Counters)
  /-- Load the mirror and cut it off. -/
  | detach (next : Script Handle Config Counters)
  /-- Load another handle's mirror and cut this one off. -/
  | handOver (target : Handle) (next : Script Handle Config Counters)

/-- The lock discipline. The flags say whether the lock is held and whether a
write-back is armed. -/
inductive Follows : Bool → Bool → Script Handle Config Counters → Prop where
  | done : Follows false false .done
  | enter {next} : Follows true false next → Follows false false (.enter next)
  | leave {next} : Follows false false next → Follows true false (.leave next)
  | beginSync {next} : Follows true true next → Follows true false (.beginSync next)
  | finishSync {armed next} : Follows true false next → Follows true armed (.finishSync next)
  | finishIdle {next} : Follows false false next → Follows false false (.finishSync next)
  | compute {change next} : (∀ config counters, Follows true true (next config counters)) →
      Follows true true (.compute change next)
  | adjust {change next} : Follows true false next → Follows true false (.adjust change next)
  | observe {next} : Follows false false next → Follows false false (.observe next)
  | refresh {next} : Follows true false next → Follows true false (.refresh next)
  | update {next} : Follows true false next → Follows true false (.update next)
  | detach {next} : Follows true false next → Follows true false (.detach next)
  | handOver {target next} : Follows true false next → Follows true false (.handOver target next)

/-- The operations of a component. Those that need the context start only on an
attached handle of an active context. -/
structure Protocol (Operation Handle Config Counters : Type) where
  lastVersion : Nat
  needsContext : Operation → Bool
  script : Operation → Script Handle Config Counters
  disciplined : ∀ operation, Follows false false (script operation)

/-- What has happened to the shared record, newest first. -/
inductive Event (Handle Config Counters : Type) where
  | synchronised (handle : Handle)
  | changed (change : Config → Counters → Counters)
  | updated (handle : Handle) (config : Config)
  | stale (handle : Handle)
  | exhausted (handle : Handle)
  | copied (source target : Handle)

/-- Another handle has committed an update since this handle last synchronised.
Its own update and a refused stale one synchronise it; a copy is as
synchronised as the handle it was made from. -/
def Outdated [DecidableEq Handle] (handle : Handle) : List (Event Handle Config Counters) → Prop
  | [] => False
  | .synchronised other :: past => other ≠ handle ∧ Outdated handle past
  | .stale other :: past => other ≠ handle ∧ Outdated handle past
  | .updated other _ :: _ => other ≠ handle
  | .copied source target :: past =>
    if target = handle then Outdated source past else Outdated handle past
  | .changed _ :: past => Outdated handle past
  | .exhausted _ :: past => Outdated handle past

/-- The record that the committed events leave, each of them taken once and in
order. -/
def replay (last : Nat) (start : Record Config Counters) :
    List (Event Handle Config Counters) → Record Config Counters
  | [] => start
  | .changed change :: past =>
    let record := replay last start past
    { record with counters := change record.config record.counters }
  | .updated _ config :: past =>
    let record := replay last start past
    { record with config, version := (record.version + 1) % (last + 1) }
  | .synchronised _ :: past => replay last start past
  | .stale _ :: past => replay last start past
  | .exhausted _ :: past => replay last start past
  | .copied _ _ :: past => replay last start past

structure Frame (Handle Config Counters : Type) where
  handle : Handle
  armed : Bool
  script : Script Handle Config Counters

/-- One record, its lock, the handles, and for each thread the operations it has
begun, innermost first. -/
structure System (Thread Handle Config Counters : Type) where
  shared : Record Config Counters
  active : Bool
  holder : Option Thread
  callStacks : Thread → List (Frame Handle Config Counters)
  mirrors : Handle → Mirror Config Counters
  history : List (Event Handle Config Counters)

/-- A thread starts operations when it runs none, or from a callback. -/
def idle : List (Frame Handle Config Counters) → Bool
  | [] => true
  | ⟨_,_,.observe _⟩ :: _ => true
  | _ :: _ => false

namespace System

/-- The handle whose operation is inside the lock. -/
def inside (s : System Thread Handle Config Counters) : Option Handle :=
  s.holder.bind fun t => (s.callStacks t).head?.map (·.handle)

/-- The handle whose mirror stands for the counters, until they are stored. -/
def loaded (s : System Thread Handle Config Counters) : Option Handle :=
  s.holder.bind fun t => match s.callStacks t with
    | [] => none
    | frame :: _ => if frame.armed then some frame.handle else none

variable [DecidableEq Thread] [DecidableEq Handle]

def setStack (s : System Thread Handle Config Counters) (t : Thread)
    (stack : List (Frame Handle Config Counters)) : System Thread Handle Config Counters :=
  { s with callStacks := Function.update s.callStacks t stack }

def setMirror (s : System Thread Handle Config Counters) (handle : Handle)
    (mirror : Mirror Config Counters) : System Thread Handle Config Counters :=
  { s with mirrors := Function.update s.mirrors handle mirror }

def log (s : System Thread Handle Config Counters) (event : Event Handle Config Counters) :
    System Thread Handle Config Counters :=
  { s with history := event :: s.history }

/-- The configuration update of one handle, under the lock. -/
def updateConfiguration (s : System Thread Handle Config Counters) (last : Nat) (handle : Handle) :
    UpdateOutcome × System Thread Handle Config Counters :=
  let mirror := s.mirrors handle
  let (outcome,shared,record) := publish last s.shared mirror.record
  let event := match outcome with
    | .updated => .updated handle mirror.record.config
    | .staleSnapshot => .stale handle
    | .versionExhausted => .exhausted handle
  (outcome,({ s with shared }.setMirror handle { mirror with record }).log event)

/-- One step of the innermost operation of a thread. -/
def runFrame (s : System Thread Handle Config Counters) (last : Nat) (t : Thread)
    (frame : Frame Handle Config Counters) (rest : List (Frame Handle Config Counters)) :
    Option (System Thread Handle Config Counters) :=
  let handle := frame.handle
  let mirror := s.mirrors handle
  let advance (s : System Thread Handle Config Counters) (next : Script Handle Config Counters) :=
    s.setStack t ({ frame with script := next } :: rest)
  match frame.script with
  | .done => some (s.setStack t rest)
  | .enter next => if s.holder.isNone then some (advance { s with holder := some t } next) else none
  | .leave next => some (advance { s with holder := none } next)
  | .beginSync next =>
    some (((s.setMirror handle { mirror with record := s.shared }).log
      (.synchronised handle)).setStack t (⟨handle,true,next⟩ :: rest))
  | .finishSync next =>
    if frame.armed then
      some ({ s with shared := { s.shared with counters := mirror.record.counters } }.setStack t
        (⟨handle,false,next⟩ :: rest))
    else some (advance s next)
  | .compute change next =>
    let config := mirror.record.config
    let counters := mirror.record.counters
    some (advance ((s.setMirror handle
        { mirror with record := { mirror.record with counters := change config counters } }).log
      (.changed change)) (next config counters))
  | .adjust change next =>
    some (advance ({ s with shared :=
      { s.shared with counters := change s.shared.config s.shared.counters } }.log
        (.changed change)) next)
  | .observe next => some (advance s next)
  | .refresh next =>
    some (advance ((s.setMirror handle { mirror with record := s.shared }).log
      (.synchronised handle)) next)
  | .update next => some (advance (s.updateConfiguration last handle).2 next)
  | .detach next =>
    some (advance ((s.setMirror handle ⟨s.shared,false⟩).log (.synchronised handle)) next)
  | .handOver target next =>
    some (advance (((s.setMirror handle { mirror with attached := false }).setMirror target
      ⟨s.shared,true⟩).log (.synchronised target)) next)

end System

inductive Action (Thread Handle Operation Config Counters : Type) where
  | run (thread : Thread)
  | start (thread : Thread) (handle : Handle) (operation : Operation)
  /-- Give up the context: no operation starts any more. -/
  | release (thread : Thread) (handle : Handle)
  /-- The owner of a handle writes its public fields. -/
  | edit (handle : Handle) (config : Config) (counters : Counters)
  | copy (source target : Handle)

variable [DecidableEq Thread] [DecidableEq Handle]

def step (p : Protocol Operation Handle Config Counters) (s : System Thread Handle Config Counters) :
    Action Thread Handle Operation Config Counters → Option (System Thread Handle Config Counters)
  | .run t => match s.callStacks t with
    | [] => none
    | frame :: rest => s.runFrame p.lastVersion t frame rest
  | .start t handle operation =>
    if idle (s.callStacks t) ∧
        (p.needsContext operation = true → (s.mirrors handle).attached = true ∧ s.active = true) then
      some (s.setStack t (⟨handle,false,p.script operation⟩ :: s.callStacks t))
    else none
  | .release t handle =>
    if idle (s.callStacks t) then
      if (s.mirrors handle).attached ∧ s.active then
        some ({ s with active := false }.setStack t
          (⟨handle,false,.enter (.detach (.leave .done))⟩ :: s.callStacks t))
      else some (s.setMirror handle { s.mirrors handle with attached := false })
    else none
  | .edit handle config counters =>
    if s.inside = some handle then none
    else
      let mirror := s.mirrors handle
      some (s.setMirror handle { mirror with record := { mirror.record with config, counters } })
  | .copy source target =>
    if s.inside = some source ∨ s.inside = some target then none
    else some ((s.setMirror target (s.mirrors source)).log (.copied source target))

/-- A fresh context: every handle is a copy of the first one, no operation runs. -/
structure Fresh (last : Nat) (s : System Thread Handle Config Counters) : Prop where
  version : s.shared.version ≤ last
  holder : s.holder = none
  callStacks : ∀ t, s.callStacks t = []
  mirrors : ∀ handle, (s.mirrors handle).record = s.shared
  history : s.history = []

/-- The systems that some interleaving of atomic steps leads to. -/
inductive Reachable (p : Protocol Operation Handle Config Counters)
    (start : System Thread Handle Config Counters) :
    System Thread Handle Config Counters → Prop where
  | refl : Reachable p start start
  | step {s s'} (action : Action Thread Handle Operation Config Counters) :
      Reachable p start s → step p s action = some s' → Reachable p start s'

section publish

variable {last : Nat} {shared mirror : Record Config Counters}

theorem publish_stale (stale : mirror.version ≠ shared.version) :
    publish last shared mirror = (.staleSnapshot,shared,shared) := by
  simp [publish,stale]

theorem publish_exhausted
    (current : mirror.version = shared.version) (exhausted : shared.version = last) :
    publish last shared mirror = (.versionExhausted,shared,mirror) := by
  simp [publish,current,exhausted]

theorem publish_updated
    (current : mirror.version = shared.version) (room : shared.version ≠ last) :
    publish last shared mirror =
      (.updated,{ shared with config := mirror.config, version := (shared.version + 1) % (last + 1) },
        { mirror with version := (shared.version + 1) % (last + 1) }) := by
  simp [publish,current,room]

end publish

/-- A given interleaving, when every step of it is possible. -/
def runAll (p : Protocol Operation Handle Config Counters) (s : System Thread Handle Config Counters) :
    List (Action Thread Handle Operation Config Counters) →
      Option (System Thread Handle Config Counters)
  | [] => some s
  | action :: actions => (step p s action).bind fun s' => runAll p s' actions

theorem Reachable.of_runAll {p : Protocol Operation Handle Config Counters}
    {start s s' : System Thread Handle Config Counters}
    {actions : List (Action Thread Handle Operation Config Counters)}
    (reached : Reachable p start s) (ran : runAll p s actions = some s') :
    Reachable p start s' := by
  induction actions generalizing s with
  | nil =>
    cases ran
    exact reached
  | cons action actions remaining =>
    obtain ⟨next,stepped,ran⟩ := Option.bind_eq_some_iff.mp ran
    exact remaining (.step action reached stepped) ran

/-- The shared record, with the counters of a loaded mirror in place of its own. -/
def settle (loaded : Option Handle) (shared : Record Config Counters)
    (mirrors : Handle → Mirror Config Counters) : Record Config Counters :=
  match loaded with
  | none => shared
  | some handle => { shared with counters := (mirrors handle).record.counters }

/-- The data of a system agrees with its history. -/
structure Consistent (last : Nat) (start : Record Config Counters) (loaded : Option Handle)
    (shared : Record Config Counters) (mirrors : Handle → Mirror Config Counters)
    (history : List (Event Handle Config Counters)) : Prop where
  settled : settle loaded shared mirrors = replay last start history
  config : ∀ handle, loaded = some handle → (mirrors handle).record.config = shared.config
  current : ∀ handle, (mirrors handle).record.version = shared.version ↔ ¬Outdated handle history
  behind : ∀ handle, (mirrors handle).record.version ≤ shared.version
  bound : shared.version ≤ last
  loadedCurrent : ∀ handle, loaded = some handle →
    (mirrors handle).record.version = shared.version

namespace Consistent

variable {last : Nat} {start shared : Record Config Counters} {loaded : Option Handle}
  {mirrors : Handle → Mirror Config Counters} {history : List (Event Handle Config Counters)}

/-- Loading a mirror, whether or not a write-back is armed for it. -/
theorem load (consistent : Consistent last start none shared mirrors history) (handle : Handle)
    (attached : Bool) {loaded : Option Handle} (own : loaded = none ∨ loaded = some handle) :
    Consistent last start loaded shared (Function.update mirrors handle ⟨shared,attached⟩)
      (.synchronised handle :: history) := by
  have settled : settle none shared mirrors = replay last start history := consistent.settled
  refine ⟨?_,?_,?_,?_,consistent.bound,?_⟩
  · rcases own with rfl | rfl
    · exact settled
    · simpa [settle,replay] using settled
  · rintro other equal
    rcases own with rfl | rfl
    · cases equal
    · cases equal
      simp
  · intro other
    by_cases same : other = handle
    · subst same
      simp [Outdated]
    · have distinct : handle ≠ other := Ne.symm same
      simpa [Function.update_of_ne same,Outdated,distinct] using consistent.current other
  · intro other
    by_cases same : other = handle
    · subst same
      simp
    · simpa [Function.update_of_ne same] using consistent.behind other
  · rintro other equal
    rcases own with rfl | rfl
    · cases equal
    · cases equal
      simp

theorem store {handle : Handle}
    (consistent : Consistent last start (some handle) shared mirrors history) :
    Consistent last start none { shared with counters := (mirrors handle).record.counters } mirrors
      history :=
  ⟨consistent.settled,(fun _ equal => nomatch equal),consistent.current,consistent.behind,
    consistent.bound,(fun _ equal => nomatch equal)⟩

/-- The attached flags play no part. -/
theorem attach (consistent : Consistent last start loaded shared mirrors history) (handle : Handle)
    (attached : Bool) :
    Consistent last start loaded shared
      (Function.update mirrors handle { mirrors handle with attached }) history := by
  have same (other : Handle) :
      (Function.update mirrors handle { mirrors handle with attached } other).record =
        (mirrors other).record := by
    by_cases equal : other = handle
    · subst equal
      simp
    · simp [Function.update_of_ne equal]
  refine ⟨?_,?_,?_,?_,consistent.bound,?_⟩
  · have settled := consistent.settled
    cases loaded with
    | none => exact settled
    | some own => simpa only [settle,same] using settled
  all_goals simp only [same]
  · exact consistent.config
  · exact consistent.current
  · exact consistent.behind
  · exact consistent.loadedCurrent

/-- The operation sees the record that the earlier events leave. -/
theorem seen {handle : Handle}
    (consistent : Consistent last start (some handle) shared mirrors history) :
    (mirrors handle).record = replay last start history := by
  have settled : settle (some handle) shared mirrors = replay last start history :=
    consistent.settled
  rw [← settled,settle]
  have config := consistent.config handle rfl
  have version := consistent.loadedCurrent handle rfl
  cases record : (mirrors handle).record
  simp_all

theorem compute {handle : Handle}
    (consistent : Consistent last start (some handle) shared mirrors history)
    (change : Config → Counters → Counters) :
    Consistent last start (some handle) shared
      (Function.update mirrors handle { mirrors handle with
        record := { (mirrors handle).record with
          counters := change (mirrors handle).record.config (mirrors handle).record.counters } })
      (.changed change :: history) := by
  have settled : settle (some handle) shared mirrors = replay last start history :=
    consistent.settled
  refine ⟨?_,?_,?_,?_,consistent.bound,?_⟩
  · simp only [replay,← settled,settle,Function.update_self,consistent.config handle rfl]
  · rintro other ⟨⟩
    simpa using consistent.config handle rfl
  · intro other
    by_cases same : other = handle
    · subst same
      simpa [Outdated] using consistent.current other
    · simpa [Function.update_of_ne same,Outdated] using consistent.current other
  · intro other
    by_cases same : other = handle
    · subst same
      simpa using consistent.behind other
    · simpa [Function.update_of_ne same] using consistent.behind other
  · rintro other ⟨⟩
    simpa using consistent.loadedCurrent handle rfl

theorem adjust (consistent : Consistent last start none shared mirrors history)
    (change : Config → Counters → Counters) :
    Consistent last start none
      { shared with counters := change shared.config shared.counters } mirrors
      (.changed change :: history) := by
  have settled : shared = replay last start history := consistent.settled
  refine ⟨?_,(fun _ equal => nomatch equal),consistent.current,consistent.behind,consistent.bound,
    (fun _ equal => nomatch equal)⟩
  simp [settle,replay,← settled]

/-- The owner writes the public fields of a mirror that is not loaded. -/
theorem edit (consistent : Consistent last start loaded shared mirrors history) (handle : Handle)
    (outside : loaded ≠ some handle) (config : Config) (counters : Counters) :
    Consistent last start loaded shared
      (Function.update mirrors handle { mirrors handle with record :=
        { (mirrors handle).record with config, counters } }) history := by
  refine ⟨?_,?_,?_,?_,consistent.bound,?_⟩
  · have settled := consistent.settled
    cases loaded with
    | none => exact settled
    | some own =>
      have other : own ≠ handle := fun equal => outside (equal ▸ rfl)
      simpa [settle,Function.update_of_ne other] using settled
  · intro own equal
    have other : own ≠ handle := fun same => outside (same ▸ equal)
    simpa [Function.update_of_ne other] using consistent.config own equal
  · intro other
    by_cases same : other = handle
    · subst same
      simpa using consistent.current other
    · simpa [Function.update_of_ne same] using consistent.current other
  · intro other
    by_cases same : other = handle
    · subst same
      simpa using consistent.behind other
    · simpa [Function.update_of_ne same] using consistent.behind other
  · intro own equal
    have other : own ≠ handle := fun same => outside (same ▸ equal)
    simpa [Function.update_of_ne other] using consistent.loadedCurrent own equal

theorem copy (consistent : Consistent last start loaded shared mirrors history)
    (source target : Handle) (outside : loaded ≠ some target) :
    Consistent last start loaded shared (Function.update mirrors target (mirrors source))
      (.copied source target :: history) := by
  refine ⟨?_,?_,?_,?_,consistent.bound,?_⟩
  · have settled := consistent.settled
    cases loaded with
    | none => exact settled
    | some own =>
      have other : own ≠ target := fun equal => outside (equal ▸ rfl)
      simpa [settle,Function.update_of_ne other,replay] using settled
  · intro own equal
    have other : own ≠ target := fun same => outside (same ▸ equal)
    simpa [Function.update_of_ne other] using consistent.config own equal
  · intro other
    by_cases same : other = target
    · subst same
      simpa [Outdated] using consistent.current source
    · have distinct : target ≠ other := Ne.symm same
      simpa [Function.update_of_ne same,Outdated,distinct] using consistent.current other
  · intro other
    by_cases same : other = target
    · subst same
      simpa using consistent.behind source
    · simpa [Function.update_of_ne same] using consistent.behind other
  · intro own equal
    have other : own ≠ target := fun same => outside (same ▸ equal)
    simpa [Function.update_of_ne other] using consistent.loadedCurrent own equal

/-- A committed update raises the generation past every mirror but its own. -/
theorem commit (consistent : Consistent last start none shared mirrors history) (handle : Handle)
    (room : shared.version ≠ last) :
    let version := (shared.version + 1) % (last + 1)
    Consistent last start none
      { shared with config := (mirrors handle).record.config, version }
      (Function.update mirrors handle { mirrors handle with
        record := { (mirrors handle).record with version } })
      (.updated handle (mirrors handle).record.config :: history) := by
  have settled : shared = replay last start history := consistent.settled
  have bound := consistent.bound
  have exact : (shared.version + 1) % (last + 1) = shared.version + 1 :=
    Nat.mod_eq_of_lt (by omega)
  simp only [exact]
  refine ⟨?_,(fun _ equal => nomatch equal),?_,?_,by simp only; omega,
    (fun _ equal => nomatch equal)⟩
  · simp [settle,replay,← settled,exact]
  · intro other
    by_cases same : other = handle
    · subst same
      simp [Outdated]
    · have distinct : handle ≠ other := Ne.symm same
      have behind := consistent.behind other
      have older : (mirrors other).record.version ≠ shared.version + 1 := by omega
      simp [Function.update_of_ne same,Outdated,distinct,older]
  · intro other
    by_cases same : other = handle
    · subst same
      simp
    · have behind := consistent.behind other
      simp only [Function.update_of_ne same]
      omega

/-- A refused update on a full generation changes nothing. -/
theorem exhaust (consistent : Consistent last start none shared mirrors history) (handle : Handle) :
    Consistent last start none shared (Function.update mirrors handle (mirrors handle))
      (.exhausted handle :: history) := by
  rw [Function.update_eq_self]
  exact ⟨consistent.settled,(fun _ equal => nomatch equal),consistent.current,consistent.behind,
    consistent.bound,(fun _ equal => nomatch equal)⟩

/-- A stale update loads the mirror, as a synchronisation does. -/
theorem refuse (consistent : Consistent last start none shared mirrors history) (handle : Handle) :
    Consistent last start none shared
      (Function.update mirrors handle { mirrors handle with record := shared })
      (.stale handle :: history) := by
  have loaded := consistent.load handle (mirrors handle).attached (.inl rfl)
  exact ⟨loaded.settled,(fun _ equal => nomatch equal),loaded.current,loaded.behind,loaded.bound,
    (fun _ equal => nomatch equal)⟩

end Consistent

/-- The innermost operation follows the discipline from where it stands; every
operation below waits in a callback. -/
def Obeys (held : Bool) : List (Frame Handle Config Counters) → Prop
  | [] => held = false
  | frame :: rest => Follows held frame.armed frame.script ∧
    ∀ below ∈ rest, below.armed = false ∧ Follows false false below.script

/-- What every reachable system satisfies. -/
structure Coherent (last : Nat) (start : Record Config Counters)
    (s : System Thread Handle Config Counters) : Prop where
  callStacks : ∀ t, Obeys (decide (s.holder = some t)) (s.callStacks t)
  data : Consistent last start s.loaded s.shared s.mirrors s.history

namespace Coherent

variable {last : Nat} {start : Record Config Counters} {s s' : System Thread Handle Config Counters}
  {t : Thread} {frame : Frame Handle Config Counters} {rest : List (Frame Handle Config Counters)}

omit [DecidableEq Handle] in
/-- Replacing the stack of the thread that moves. -/
theorem stacks_update (holder : Option Thread) (stack : List (Frame Handle Config Counters))
    (own : Obeys (decide (holder = some t)) stack)
    (others : ∀ u, u ≠ t → Obeys (decide (holder = some u)) (s.callStacks u)) (u : Thread) :
    Obeys (decide (holder = some u)) (Function.update s.callStacks t stack u) := by
  by_cases same : u = t
  · subst same
    simpa using own
  · simpa [Function.update_of_ne same] using others u same

omit [DecidableEq Handle] in
/-- A thread outside the lock does not touch what is loaded. -/
theorem loaded_outside (outside : s.holder ≠ some t) (stack : List (Frame Handle Config Counters)) :
    (s.setStack t stack).loaded = s.loaded := by
  unfold System.loaded System.setStack
  cases holder : s.holder with
  | none => rfl
  | some u =>
    have other : u ≠ t := fun same => outside (same ▸ holder)
    simp [Function.update_of_ne other]

omit [DecidableEq Handle] in
theorem loaded_holder (frame : Frame Handle Config Counters)
    (rest : List (Frame Handle Config Counters)) (held : s.holder = some t) :
    (s.setStack t (frame :: rest)).loaded = if frame.armed then some frame.handle else none := by
  simp [System.loaded,System.setStack,held]

omit [DecidableEq Thread] [DecidableEq Handle] in
theorem loaded_top (held : s.holder = some t) (stack : s.callStacks t = frame :: rest) :
    s.loaded = if frame.armed then some frame.handle else none := by
  simp [System.loaded,held,stack]

/-- A thread outside the lock moves to another stack. -/
theorem move_outside (coherent : Coherent last start s) (outside : s.holder ≠ some t)
    (stack : List (Frame Handle Config Counters)) (obeys : Obeys false stack) :
    Coherent last start (s.setStack t stack) := by
  constructor
  · apply stacks_update s.holder
    · simpa [outside] using obeys
    · exact fun u _ => coherent.callStacks u
  · rw [loaded_outside outside]
    exact coherent.data

/-- The holder of the lock moves on, with new data. -/
theorem move_holder (coherent : Coherent last start s) (held : s.holder = some t)
    {shared : Record Config Counters} {mirrors : Handle → Mirror Config Counters}
    {history : List (Event Handle Config Counters)} (below : List (Frame Handle Config Counters))
    (obeys : Obeys true (frame :: below))
    (data : Consistent last start (if frame.armed then some frame.handle else none) shared mirrors
      history) :
    Coherent last start
      ({ s with shared, mirrors, history }.setStack t (frame :: below)) := by
  constructor
  · apply stacks_update s.holder
    · simpa [held] using obeys
    · exact fun u _ => coherent.callStacks u
  · have loaded := loaded_holder (s := { s with shared, mirrors, history }) frame below held
    rw [loaded]
    exact data

omit [DecidableEq Thread] in
theorem updated (data : Consistent last start none s.shared s.mirrors s.history)
    (handle : Handle) :
    ∃ shared mirrors history,
      (s.updateConfiguration last handle).2 = { s with shared, mirrors, history } ∧
      Consistent last start none shared mirrors history := by
  by_cases current : (s.mirrors handle).record.version = s.shared.version
  · by_cases exhausted : s.shared.version = last
    · have outcome := publish_exhausted current exhausted
      simp only [System.updateConfiguration,outcome]
      exact ⟨_,_,_,rfl,data.exhaust handle⟩
    · have outcome := publish_updated current exhausted
      simp only [System.updateConfiguration,outcome]
      exact ⟨_,_,_,rfl,data.commit handle exhausted⟩
  · have outcome : publish last s.shared (s.mirrors handle).record = _ := publish_stale current
    simp only [System.updateConfiguration,outcome]
    exact ⟨_,_,_,rfl,data.refuse handle⟩

/-- One step of the innermost operation. -/
theorem runFrame (coherent : Coherent last start s) (stack : s.callStacks t = frame :: rest)
    (ran : s.runFrame last t frame rest = some s') : Coherent last start s' := by
  obtain ⟨handle,armed,script⟩ := frame
  have obeys := coherent.callStacks t
  rw [stack] at obeys
  obtain ⟨follows,below⟩ := obeys
  have data := coherent.data
  by_cases held : s.holder = some t
  · rw [loaded_top held stack] at data
    simp only [held,decide_true] at follows
    cases follows with
    | leave next =>
      cases ran
      constructor
      · apply stacks_update none
        · exact ⟨next,below⟩
        · intro u other
          have outside := coherent.callStacks u
          have distinct : t ≠ u := Ne.symm other
          simpa [held,distinct] using outside
      · exact data
    | beginSync next =>
      cases ran
      exact coherent.move_holder held rest ⟨next,below⟩
        (data.load handle (s.mirrors handle).attached (.inr rfl))
    | finishSync next =>
      cases armed with
      | false =>
        cases ran
        exact coherent.move_holder held rest ⟨next,below⟩ data
      | true =>
        cases ran
        exact coherent.move_holder held rest ⟨next,below⟩ data.store
    | compute next =>
      cases ran
      exact coherent.move_holder held rest ⟨next _ _,below⟩ (data.compute _)
    | adjust next =>
      cases ran
      exact coherent.move_holder held rest ⟨next,below⟩ (data.adjust _)
    | refresh next =>
      cases ran
      exact coherent.move_holder held rest ⟨next,below⟩
        (data.load handle (s.mirrors handle).attached (.inl rfl))
    | update next =>
      obtain ⟨shared,mirrors,history,equal,consistent⟩ := updated data handle
      simp only [System.runFrame,equal] at ran
      cases ran
      exact coherent.move_holder held rest ⟨next,below⟩ consistent
    | detach next =>
      cases ran
      exact coherent.move_holder held rest ⟨next,below⟩ (data.load handle false (.inl rfl))
    | handOver next =>
      cases ran
      exact coherent.move_holder held rest ⟨next,below⟩
        ((data.attach handle false).load _ true (.inl rfl))
  · simp only [held,decide_false] at follows
    cases follows with
    | done =>
      cases ran
      apply coherent.move_outside held
      cases rest with
      | nil => rfl
      | cons waiting others =>
        obtain ⟨disarmed,follows⟩ := below waiting List.mem_cons_self
        refine ⟨disarmed ▸ follows,fun other member => below other ?_⟩
        exact List.mem_cons_of_mem _ member
    | enter next =>
      simp only [System.runFrame] at ran
      split at ran
      · rename_i free
        have unheld : s.holder = none := Option.isNone_iff_eq_none.mp free
        cases ran
        constructor
        · apply stacks_update (some t)
          · rw [decide_eq_true rfl]
            exact ⟨next,below⟩
          · intro u other
            have outside := coherent.callStacks u
            have distinct : t ≠ u := Ne.symm other
            simpa [unheld,distinct] using outside
        · have loaded : s.loaded = none := by simp [System.loaded,unheld]
          rw [loaded] at data
          simpa [System.loaded,System.setStack] using data
      · cases ran
    | finishIdle next =>
      cases ran
      exact coherent.move_outside held _ ⟨next,below⟩
    | observe next =>
      cases ran
      exact coherent.move_outside held _ ⟨next,below⟩

/-- A thread that may start an operation is outside the lock. -/
theorem waiting (coherent : Coherent last start s) (ready : idle (s.callStacks t) = true) :
    s.holder ≠ some t ∧
      ∀ below ∈ s.callStacks t, below.armed = false ∧ Follows false false below.script := by
  have obeys := coherent.callStacks t
  cases stack : s.callStacks t with
  | nil =>
    rw [stack] at obeys
    exact ⟨of_decide_eq_false obeys,(fun _ member => nomatch member)⟩
  | cons frame rest =>
    obtain ⟨handle,armed,script⟩ := frame
    rw [stack] at obeys ready
    obtain ⟨follows,below⟩ := obeys
    cases script <;> try cases ready
    generalize held : decide (s.holder = some t) = holds at follows
    cases follows with
    | observe next =>
      refine ⟨of_decide_eq_false held,?_⟩
      intro other member
      rcases List.mem_cons.mp member with rfl | member
      · exact ⟨rfl,.observe next⟩
      · exact below other member

omit [DecidableEq Thread] [DecidableEq Handle] in
/-- Only the handle inside the lock is loaded. -/
theorem loaded_inside {handle : Handle} (outside : s.inside ≠ some handle) :
    s.loaded ≠ some handle := by
  intro loaded
  apply outside
  unfold System.loaded at loaded
  unfold System.inside
  cases holder : s.holder with
  | none => simp [holder] at loaded
  | some t =>
    cases stack : s.callStacks t with
    | nil => simp [holder,stack] at loaded
    | cons frame rest =>
      simp only [holder,stack,Option.bind_some] at loaded
      split at loaded
      · simpa [stack] using loaded
      · cases loaded

/-- Every step keeps the system coherent. -/
theorem step {p : Protocol Operation Handle Config Counters}
    {action : Action Thread Handle Operation Config Counters}
    (coherent : Coherent p.lastVersion start s) (stepped : step p s action = some s') :
    Coherent p.lastVersion start s' := by
  cases action with
  | run t =>
    simp only [MirroredState.step] at stepped
    split at stepped
    · cases stepped
    · rename_i frame rest stack
      exact coherent.runFrame stack stepped
  | start t handle operation =>
    simp only [MirroredState.step] at stepped
    split at stepped
    · rename_i ready
      obtain ⟨outside,below⟩ := coherent.waiting ready.1
      cases stepped
      exact coherent.move_outside outside _ ⟨p.disciplined operation,below⟩
    · cases stepped
  | release t handle =>
    simp only [MirroredState.step] at stepped
    split at stepped
    · rename_i ready
      obtain ⟨outside,below⟩ := coherent.waiting ready
      split at stepped
      · cases stepped
        have moved := coherent.move_outside outside (⟨handle,false,.enter (.detach (.leave .done))⟩ ::
          s.callStacks t) ⟨.enter (.detach (.leave .done)),below⟩
        exact ⟨moved.callStacks,moved.data⟩
      · cases stepped
        exact ⟨coherent.callStacks,coherent.data.attach handle false⟩
    · cases stepped
  | edit handle config counters =>
    simp only [MirroredState.step] at stepped
    split at stepped
    · cases stepped
    · rename_i outside
      cases stepped
      exact ⟨coherent.callStacks,coherent.data.edit handle (loaded_inside outside) config counters⟩
  | copy source target =>
    simp only [MirroredState.step] at stepped
    split at stepped
    · cases stepped
    · rename_i outside
      cases stepped
      exact ⟨coherent.callStacks,
        coherent.data.copy source target (loaded_inside fun inside => outside (.inr inside))⟩

theorem fresh (fresh : Fresh last s) : Coherent last s.shared s := by
  have loaded : s.loaded = none := by simp [System.loaded,fresh.holder]
  constructor
  · intro t
    rw [fresh.callStacks t,fresh.holder]
    rfl
  · rw [loaded]
    refine ⟨?_,(fun _ equal => nomatch equal),?_,?_,fresh.version,(fun _ equal => nomatch equal)⟩
    · rw [fresh.history]
      rfl
    · intro handle
      simp [fresh.mirrors handle,fresh.history,Outdated]
    · intro handle
      exact Nat.le_of_eq (congrArg Record.version (fresh.mirrors handle))

/-- Coherence holds along every interleaving. -/
theorem reachable {p : Protocol Operation Handle Config Counters}
    (initial : Fresh p.lastVersion s) (reached : Reachable p s s') :
    Coherent p.lastVersion s.shared s' := by
  induction reached with
  | refl => exact fresh initial
  | step action _ stepped coherent => exact coherent.step stepped

omit [DecidableEq Thread] in
/-- An update is committed exactly when no other handle has committed since, and
the generation has not run out. -/
theorem updated_iff (data : Consistent last start s.loaded s.shared s.mirrors s.history)
    (handle : Handle) :
    (s.updateConfiguration last handle).1 = .updated ↔
      ¬Outdated handle s.history ∧ s.shared.version ≠ last := by
  rw [← data.current handle]
  by_cases current : (s.mirrors handle).record.version = s.shared.version
  · by_cases exhausted : s.shared.version = last
    · have outcome := publish_exhausted current exhausted
      simp [System.updateConfiguration,outcome,exhausted]
    · have outcome := publish_updated current exhausted
      simp [System.updateConfiguration,outcome,current,exhausted]
  · have outcome : publish last s.shared (s.mirrors handle).record = _ := publish_stale current
    simp [System.updateConfiguration,outcome,current]

omit [DecidableEq Thread] in
theorem stale_iff (data : Consistent last start s.loaded s.shared s.mirrors s.history)
    (handle : Handle) :
    (s.updateConfiguration last handle).1 = .staleSnapshot ↔ Outdated handle s.history := by
  rw [← not_iff_not,← data.current handle]
  by_cases current : (s.mirrors handle).record.version = s.shared.version
  · by_cases exhausted : s.shared.version = last
    · have outcome := publish_exhausted current exhausted
      simp [System.updateConfiguration,outcome,current]
    · have outcome := publish_updated current exhausted
      simp [System.updateConfiguration,outcome,current]
  · have outcome : publish last s.shared (s.mirrors handle).record = _ := publish_stale current
    simp [System.updateConfiguration,outcome,current]

omit [DecidableEq Thread] in
/-- A refused update leaves the shared record as it was. -/
theorem refused_unchanged (handle : Handle)
    (refused : (s.updateConfiguration last handle).1 ≠ .updated) :
    (s.updateConfiguration last handle).2.shared = s.shared := by
  by_cases current : (s.mirrors handle).record.version = s.shared.version
  · by_cases exhausted : s.shared.version = last
    · have outcome := publish_exhausted current exhausted
      simp [System.updateConfiguration,outcome,System.setMirror,System.log]
    · have outcome := publish_updated current exhausted
      simp [System.updateConfiguration,outcome] at refused
  · have outcome : publish last s.shared (s.mirrors handle).record = _ := publish_stale current
    simp [System.updateConfiguration,outcome,System.setMirror,System.log]

end Coherent

end MirroredState
