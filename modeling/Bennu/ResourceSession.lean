import Bennu.ResourceOperations

/-! Arbitrary sequences of resource operations on any number of contexts, over
the values, workspaces and tables that the operations hand out. -/
namespace Bennu

/-- The client's side: its contexts and everything it owns. -/
structure ResourceSession where
  host : Host
  contexts : List EvaluationResources
  values : List Value
  workspaces : List WorkspaceReservation
  tables : List TupleTableReservation

/-- One client operation; the first index of a resource operation is its context. -/
inductive ResourceOperation where
  | makeScalar (scalar : ScalarValue)
  | moveValue (source target : Nat)
  | allocateVector (context : Nat) (type : ScalarType) (count work : Nat)
  | chargeWork (context work : Nat)
  | reserveWorkspace (context bytes work : Nat)
  | releaseWorkspace (context index : Nat)
  | dropWorkspace (index : Nat)
  | reserveTupleTable (context count : Nat)
  | releaseTupleTable (context index : Nat)
  | dropTupleTable (index : Nat)
  | makeTuple (context : Nat) (failure : HostFailureInjection) (start count : Nat)
  | releaseVector (context : Nat) (failure : HostFailureInjection) (index : Nat)
  | releaseValue (context : Nat) (failure : HostFailureInjection) (index : Nat)
  | detachValue (context index : Nat)
  | destroyValue (failure : HostFailureInjection) (index : Nat)
  | destroyProvenValue (index : Nat)
  | dropValue (index : Nat)
  | releaseContext (context : Nat)
  deriving DecidableEq, Repr

namespace ResourceSession

def context (s : ResourceSession) (index : Nat) : EvaluationResources :=
  s.contexts.getD index closedResources

def isOk {ε α : Type} : Except ε α → Bool
  | .ok _ => true
  | .error _ => false

/-- Replace one value by what an operation left of it. -/
def putValue (s : ResourceSession) (index : Nat) (host : Host) (v : Value) : ResourceSession :=
  { s with host := host, values := s.values.set index v }

/-- One operation and whether it was admitted. An index that names nothing is refused. -/
def step (s : ResourceSession) : ResourceOperation → ResourceSession × Bool
  | .makeScalar scalar =>
    ({ s with values := s.values ++ [⟨.scalar,scalar,emptyVector,emptyTuple,true⟩] },true)
  | .moveValue source target => match s.values[source]? with
    | none => (s,false)
    | some moved =>
      let (emptied,result) :=
        if moved.claimed then (s.putValue source s.host invalidConstructionValue,moved)
        else (s,invalidConstructionValue)
      match emptied.values[target]? with
      | none => (s,false)
      | some old => (emptied.putValue target (s.host.dropValue old) result,true)
  | .allocateVector context type count work =>
    match s.host.allocateVector (s.context context) type count work with
    | (host,.error _) => ({ s with host := host },false)
    | (host,.ok v) => ({ s with host := host, values := s.values ++ [v] },true)
  | .chargeWork context work =>
    let (host,result) := s.host.chargeWork (s.context context) work
    ({ s with host := host },isOk result)
  | .reserveWorkspace context bytes work =>
    match s.host.reserveWorkspace (s.context context) bytes work with
    | (host,.error _) => ({ s with host := host },false)
    | (host,.ok w) => ({ s with host := host, workspaces := s.workspaces ++ [w] },true)
  | .releaseWorkspace context index => match s.workspaces[index]? with
    | none => (s,false)
    | some w =>
      let (host,left,result) := s.host.releaseWorkspace (s.context context) w
      ({ s with host := host, workspaces := s.workspaces.set index left },isOk result)
  | .dropWorkspace index => match s.workspaces[index]? with
    | none => (s,false)
    | some w =>
      ({ s with host := s.host.dropWorkspace w, workspaces := s.workspaces.set index emptyWorkspace },true)
  | .reserveTupleTable context count =>
    match s.host.reserveTupleTable (s.context context) count with
    | (host,.error _) => ({ s with host := host },false)
    | (host,.ok t) => ({ s with host := host, tables := s.tables ++ [t] },true)
  | .releaseTupleTable context index => match s.tables[index]? with
    | none => (s,false)
    | some t =>
      let (host,left,result) := s.host.releaseTupleTable (s.context context) t
      ({ s with host := host, tables := s.tables.set index left },isOk result)
  | .dropTupleTable index => match s.tables[index]? with
    | none => (s,false)
    | some t =>
      ({ s with host := s.host.dropReservation t, tables := s.tables.set index emptyReservation },true)
  | .makeTuple context failure start count =>
    let rest := s.values.drop start
    match makeTupleValue failure s.host (s.context context) (rest.take count) with
    | (_,host,left,.error _) =>
      ({ s with host := host, values := s.values.take start ++ (left ++ rest.drop count) },false)
    | (_,host,left,.ok v) =>
      ({ s with host := host, values := s.values.take start ++ (left ++ rest.drop count) ++ [v] },true)
  | .releaseVector context failure index => match s.values[index]? with
    | none => (s,false)
    | some v =>
      let (_,host,left,result) := s.host.releaseVectorReservation failure (s.context context) v
      (s.putValue index host left,isOk result)
  | .releaseValue context failure index => match s.values[index]? with
    | none => (s,false)
    | some v =>
      let (_,host,left,result) := s.host.releaseValueReservations failure (s.context context) v
      (s.putValue index host left,isOk result)
  | .detachValue context index => match s.values[index]? with
    | none => (s,false)
    | some v =>
      let (host,left,result) := s.host.detachValueReservations (s.context context) v
      (s.putValue index host left,isOk result)
  | .destroyValue failure index => match s.values[index]? with
    | none => (s,false)
    | some v =>
      let (_,host,left,result) := s.host.destroyValue failure v
      (s.putValue index host left,isOk result)
  | .destroyProvenValue index => match s.values[index]? with
    | none => (s,false)
    | some v =>
      let (host,left) := s.host.destroyProvenValue v
      (s.putValue index host left,true)
  | .dropValue index => match s.values[index]? with
    | none => (s,false)
    | some v => (s.putValue index (s.host.dropValue v) invalidConstructionValue,true)
  | .releaseContext context =>
    let (host,closed) := s.host.releaseEvaluationResources (s.context context)
    ({ s with host := host, contexts := s.contexts.set context closed },true)

def run (s : ResourceSession) (operations : List ResourceOperation) : ResourceSession :=
  operations.foldl (fun s operation => (s.step operation).1) s

end ResourceSession

/-- A process with no states and no buffers, whose allocator follows the two plans. -/
def emptyHost (bufferPlan : Nat → Nat → HostResourceErrorReason)
    (arrayPlan : Nat → HostResourceErrorReason) : Host :=
  ⟨1,fun _ => none,[],1,0,bufferPlan,arrayPlan⟩

/-- Open one context for each account. -/
def openContexts : Host → List Account → Host × List EvaluationResources
  | h,[] => (h,[])
  | h,account :: rest =>
    let (opened,resources) := h.makeResourceRecord account
    let (last,others) := openContexts opened rest
    (last,resources :: others)

def startSession (bufferPlan : Nat → Nat → HostResourceErrorReason)
    (arrayPlan : Nat → HostResourceErrorReason) (accounts : List Account) : ResourceSession :=
  let (host,contexts) := openContexts (emptyHost bufferPlan arrayPlan) accounts
  ⟨host,contexts,[],[],[]⟩

namespace ResourceSession

/-- Every record the client owns. -/
def holdings (s : ResourceSession) : List Holding :=
  s.values.flatMap Value.holdings ++ (s.workspaces.map (·.holding) ++ s.tables.map (·.holding))

/-- Whether some handle still names the context. -/
def openedBy (contexts : List EvaluationResources) (token : Nat) : Bool :=
  token != 0 && contexts.any fun r => r.owner == token

def opened (s : ResourceSession) (token : Nat) : Bool := openedBy s.contexts token

def baseline (s : ResourceSession) (live : Nat → Nat) : Baseline := ⟨live,openedBy s.contexts⟩

/-- No two handles name one context. -/
def Separate (contexts : List EvaluationResources) : Prop :=
  (contexts.map (·.owner)).Pairwise fun a b => a ≠ b ∨ a = 0

/-- The invariant of a session that started with the given live bytes. -/
structure Sound (live : Nat → Nat) (s : ResourceSession) : Prop where
  accounted : Accounted (s.baseline live) s.host s.holdings
  tidy : ∀ v ∈ s.values, v.Tidy fun _ => True
  handles : ∀ r ∈ s.contexts, r.stateHandle = r.owner
  distinct : Separate s.contexts

variable {live : Nat → Nat} {s : ResourceSession}

/-- The records beside those of one value. -/
def others (s : ResourceSession) (index : Nat) : List Holding :=
  (s.values.eraseIdx index).flatMap Value.holdings ++
    (s.workspaces.map (·.holding) ++ s.tables.map (·.holding))

theorem Sound.kept (sound : s.Sound live) {index : Nat} {v : Value} (found : s.values[index]? = some v) :
    v.Kept (s.baseline live) (s.others index) s.host := by
  obtain ⟨bound,rfl⟩ := List.getElem?_eq_some_iff.mp found
  refine ⟨sound.accounted.perm ?_,sound.tidy _ (List.getElem_mem bound)⟩
  have focused := (List.getElem_cons_eraseIdx_perm bound).symm.flatMap_right Value.holdings
  simpa [holdings,others] using focused.append_right _

/-- Whatever an operation leaves of one value, the session stays sound. -/
theorem Sound.putValue (sound : s.Sound live) {index : Nat} {host : Host} {v v' : Value}
    (found : s.values[index]? = some v)
    (kept : v'.Kept (s.baseline live) (s.others index) host) :
    (s.putValue index host v').Sound live := by
  obtain ⟨bound,rfl⟩ := List.getElem?_eq_some_iff.mp found
  refine ⟨kept.accounted.perm ?_,fun w member => ?_,sound.handles,sound.distinct⟩
  · have focused := ((set_perm bound v').flatMap_right Value.holdings).symm
    simpa [holdings,others,ResourceSession.putValue] using focused.append_right _
  · rcases List.mem_or_eq_of_mem_set member with old | rfl
    · exact sound.tidy w old
    · exact kept.tidy

theorem Sound.addValue (sound : s.Sound live) {host : Host} {v : Value}
    (kept : v.Kept (s.baseline live) s.holdings host) :
    { s with host := host, values := s.values ++ [v] : ResourceSession }.Sound live := by
  refine ⟨kept.accounted.perm ?_,fun w member => ?_,sound.handles,sound.distinct⟩
  · have moved : (v.holdings ++ (s.values.flatMap Value.holdings ++
        (s.workspaces.map (·.holding) ++ s.tables.map (·.holding)))).Perm
        (s.values.flatMap Value.holdings ++ (v.holdings ++
          (s.workspaces.map (·.holding) ++ s.tables.map (·.holding)))) :=
      List.perm_append_comm_assoc ..
    simpa [holdings] using moved
  · rcases List.mem_append.mp member with old | new
    · exact sound.tidy w old
    · exact (List.mem_singleton.mp new) ▸ kept.tidy

/-- An operation that hands out nothing keeps every record. -/
theorem Sound.onlyHost (sound : s.Sound live) {host : Host}
    (accounted : Accounted (s.baseline live) host s.holdings) :
    { s with host := host : ResourceSession }.Sound live :=
  ⟨accounted,sound.tidy,sound.handles,sound.distinct⟩

theorem Sound.setWorkspace (sound : s.Sound live) {index : Nat} {host : Host}
    {w w' : WorkspaceReservation} (found : s.workspaces[index]? = some w)
    (change : ∀ rest, Accounted (s.baseline live) s.host (w.holding :: rest) →
      Accounted (s.baseline live) host (w'.holding :: rest)) :
    { s with host := host, workspaces := s.workspaces.set index w' : ResourceSession }.Sound live := by
  obtain ⟨bound,rfl⟩ := List.getElem?_eq_some_iff.mp found
  have order : ∀ (l : List WorkspaceReservation) (x : WorkspaceReservation),
      l.Perm (x :: s.workspaces.eraseIdx index) →
      (s.values.flatMap Value.holdings ++ (l.map (·.holding) ++ s.tables.map (·.holding))).Perm
        (x.holding :: (s.values.flatMap Value.holdings ++
          ((s.workspaces.eraseIdx index).map (·.holding) ++ s.tables.map (·.holding)))) := by
    intro l x focused
    have moved := (focused.map WorkspaceReservation.holding).append_right (s.tables.map (·.holding))
    exact (moved.append_left _).trans List.perm_middle
  have before := sound.accounted.perm
    (order _ _ (List.getElem_cons_eraseIdx_perm bound).symm)
  exact ⟨(change _ before).perm (order _ _ (set_perm bound w')).symm,sound.tidy,sound.handles,
    sound.distinct⟩

theorem Sound.setTable (sound : s.Sound live) {index : Nat} {host : Host}
    {t t' : TupleTableReservation} (found : s.tables[index]? = some t)
    (change : ∀ rest, Accounted (s.baseline live) s.host (t.holding :: rest) →
      Accounted (s.baseline live) host (t'.holding :: rest)) :
    { s with host := host, tables := s.tables.set index t' : ResourceSession }.Sound live := by
  obtain ⟨bound,rfl⟩ := List.getElem?_eq_some_iff.mp found
  have order : ∀ (l : List TupleTableReservation) (x : TupleTableReservation),
      l.Perm (x :: s.tables.eraseIdx index) →
      (s.values.flatMap Value.holdings ++ (s.workspaces.map (·.holding) ++ l.map (·.holding))).Perm
        (x.holding :: (s.values.flatMap Value.holdings ++
          (s.workspaces.map (·.holding) ++ (s.tables.eraseIdx index).map (·.holding)))) := by
    intro l x focused
    rw [← List.append_assoc,← List.append_assoc]
    exact ((focused.map TupleTableReservation.holding).append_left _).trans List.perm_middle
  have before := sound.accounted.perm
    (order _ _ (List.getElem_cons_eraseIdx_perm bound).symm)
  exact ⟨(change _ before).perm (order _ _ (set_perm bound t')).symm,sound.tidy,sound.handles,
    sound.distinct⟩

theorem emptyHoldings_kept {initial : Baseline} {h : Host} {rest : List Holding}
    (accounted : Accounted initial h rest) : invalidConstructionValue.Kept initial rest h :=
  kept_empty accounted rfl rfl

theorem Sound.permValues (sound : s.Sound live) {values : List Value}
    (order : List.Perm s.values values) : { s with values := values : ResourceSession }.Sound live :=
  ⟨sound.accounted.perm ((order.flatMap_right _).append_right _),
    fun v member => sound.tidy v (order.mem_iff.mpr member),sound.handles,sound.distinct⟩

/-- Moving a value is exchanging the two slots and dropping what the target held. -/
theorem moveValue_sound (sound : s.Sound live) (source target : Nat) :
    (s.step (.moveValue source target)).1.Sound live := by
  simp only [step]
  split
  · exact sound
  · rename_i moved found
    obtain ⟨sourceBound,sourceValue⟩ := List.getElem?_eq_some_iff.mp found
    by_cases claimed : moved.claimed = true
    · simp only [claimed,if_true,ResourceSession.putValue]
      split
      · exact sound
      · rename_i old targetFound
        obtain ⟨targetBound,targetValue⟩ := List.getElem?_eq_some_iff.mp targetFound
        rw [List.length_set] at targetBound
        by_cases same : source = target
        · subst same
          simp only [List.getElem_set_self] at targetValue
          have restored : (s.values.set source invalidConstructionValue).set source moved = s.values := by
            rw [List.set_set,← sourceValue,List.set_getElem_self]
          rw [restored,← targetValue]
          exact sound.onlyHost sound.accounted
        · rw [List.getElem_set_ne same] at targetValue
          have order : (s.values.set source old).set target moved |>.Perm s.values := by
            rw [← sourceValue,← targetValue]
            exact List.set_set_perm sourceBound targetBound
          have swapped := sound.permValues order.symm
          have atSource : ((s.values.set source old).set target moved)[source]? = some old := by
            rw [List.getElem?_set_ne (Ne.symm same),List.getElem?_set_self sourceBound]
          have dropped := swapped.putValue atSource
            (emptyHoldings_kept (swapped.kept atSource).dropped)
          have final : ((s.values.set source old).set target moved).set source invalidConstructionValue =
              (s.values.set source invalidConstructionValue).set target moved := by
            rw [List.set_comm _ _ (Ne.symm same),List.set_set]
          simpa [ResourceSession.putValue,final] using dropped
    · simp only [claimed,Bool.false_eq_true,if_false]
      split
      · exact sound
      · rename_i old targetFound
        exact sound.putValue targetFound (emptyHoldings_kept (sound.kept targetFound).dropped)

/-- Closing a context drops the reference of its handle and nothing else. -/
theorem close_accounted {initial : Baseline} {h : Host} {xs : List Holding}
    (accounted : Accounted initial h xs) {owner : Nat} {state : EvaluationResourceState}
    (found : h.findState owner = some state) (opened : initial.opened owner = true) :
    Accounted ⟨initial.live,fun t => initial.opened t && t != owner⟩
      ((h.setState owner (some { state with contextActive := false })).releaseAccountingOwner owner)
      xs := by
  have balanced := accounted.balanced
  have nonzero : owner ≠ 0 := fun zero => by simp [zero] at found
  have references := balanced.references owner state found
  rw [balanced.active owner state found,opened,Bool.toNat_true] at references
  have after : ∀ t, ((h.setState owner (some { state with contextActive := false })).releaseAccountingOwner
      owner).findState t = if t = owner then
        if state.referenceCount - 1 = 0 then none
        else some { state with contextActive := false, referenceCount := state.referenceCount - 1 }
      else h.findState t := by
    intro t
    rw [Host.findState_release]
    by_cases mine : t = owner
    · simp [mine,Host.findState_setState,nonzero]
    · by_cases zero : t = 0
      · simp [zero,Ne.symm nonzero]
      · simp [mine,Host.findState_setState,zero]
  have others : ∀ t s, ((h.setState owner (some { state with contextActive := false })).releaseAccountingOwner
      owner).findState t = some s → (t ≠ owner ∧ h.findState t = some s) ∨
        (t = owner ∧ state.referenceCount - 1 ≠ 0 ∧
          s = { state with contextActive := false, referenceCount := state.referenceCount - 1 }) := by
    intro t s
    rw [after]
    split
    · split
      · rintro ⟨⟩
      · rename_i mine remaining
        rintro ⟨⟩
        exact .inr ⟨mine,remaining,rfl⟩
    · rename_i different
      exact fun same => .inl ⟨different,same⟩
  have buffers : ((h.setState owner (some { state with contextActive := false })).releaseAccountingOwner
      owner).buffers = h.buffers := by simp
  refine ⟨⟨by simpa using balanced.distinct,?_,?_,?_,?_,?_,?_,?_,?_⟩,accounted.separate,?_⟩
  · simpa using balanced.fresh
  · intro r member active
    rw [buffers] at member
    rw [after]
    split
    · rename_i mine
      -- The binding is a second reference beside the handle's.
      have counted := KeyedList.share_le_total (boundCount owner) balanced.distinct member
      have one : boundCount owner r = 1 := by simp [boundCount,active,mine]
      simp only [Host.activeBindings] at references
      rw [if_neg (by omega)]
      rfl
    · exact balanced.owned r member active
  · intro t s registered
    rcases others t s registered with ⟨-,same⟩ | ⟨rfl,-,rfl⟩
    · simpa [Host.activeBytes] using balanced.live t s same
    · simpa [Host.activeBytes] using balanced.live t state found
  · intro t s registered
    rcases others t s registered with ⟨-,same⟩ | ⟨rfl,-,rfl⟩
    · simpa [Host.activeBindings] using balanced.references t s same
    · simp only [Host.activeBindings,buffers,Bool.toNat_false] at references ⊢
      omega
  · intro t s registered
    rcases others t s registered with ⟨-,same⟩ | ⟨rfl,remaining,rfl⟩
    · exact balanced.referenced t s same
    · exact Nat.pos_of_ne_zero remaining
  · intro t s registered
    rcases others t s registered with ⟨different,same⟩ | ⟨rfl,-,rfl⟩
    · have apart : (t != owner) = true := by simpa using different
      simpa only [apart,Bool.and_true] using balanced.active t s same
    · simp
  · intro t still
    simp only [Bool.and_eq_true,bne_iff_ne] at still
    rw [after,if_neg still.2]
    exact balanced.registered t still.1
  · intro t s registered
    rcases others t s registered with ⟨-,same⟩ | ⟨rfl,-,rfl⟩
    · exact balanced.sized t s same
    · exact balanced.sized t state found
  · exact fun x member => (accounted.backed x member).congr fun p _ => by
      simp [Host.findRecord,Host.setState]

theorem openedBy_cons (r : EvaluationResources) (contexts : List EvaluationResources) (t : Nat) :
    openedBy (r :: contexts) t = (t != 0 && r.owner == t || openedBy contexts t) := by
  simp [openedBy,Bool.and_or_distrib_left]

theorem openedBy_perm {contexts contexts' : List EvaluationResources}
    (order : List.Perm contexts contexts') : openedBy contexts = openedBy contexts' :=
  funext fun t => by rw [openedBy,openedBy,order.any_eq]

theorem Separate.perm {contexts contexts' : List EvaluationResources} (separate : Separate contexts)
    (order : List.Perm contexts contexts') : Separate contexts' :=
  (order.map EvaluationResources.owner).pairwise separate fun {a b} apart => by
    change a ≠ b ∨ a = 0 at apart
    omega

/-- Closing one handle closes its context, since no other handle names it. -/
theorem close_handle {contexts : List EvaluationResources} (separate : Separate contexts) (index : Nat) :
    openedBy (contexts.set index closedResources) =
        (fun t => openedBy contexts t && t != (contexts.getD index closedResources).owner) ∧
      Separate (contexts.set index closedResources) := by
  by_cases bound : index < contexts.length
  · have before := List.getElem_cons_eraseIdx_perm bound
    have after := set_perm bound closedResources
    rw [List.getD_eq_getElem _ _ bound,openedBy_perm after,openedBy_perm before.symm]
    have focused := separate.perm before.symm
    generalize contexts[index] = r at focused
    generalize contexts.eraseIdx index = others at focused after
    simp only [Separate,List.map_cons,List.pairwise_cons] at focused
    refine ⟨funext fun t => ?_,Separate.perm ?_ after.symm⟩
    · rw [openedBy_cons,openedBy_cons]
      by_cases zero : t = 0
      · simp [zero,openedBy]
      · by_cases mine : r.owner = t
        · have absent : openedBy others t = false := by
            simp only [openedBy,Bool.and_eq_false_iff,List.any_eq_false,beq_iff_eq]
            refine .inr fun other member => ?_
            have apart := focused.1 other.owner (List.mem_map_of_mem member)
            omega
          simp [closedResources,absent,mine,Ne.symm zero]
        · have blank : (0 == t) = false := by simpa using Ne.symm zero
          have other : (r.owner == t) = false := by simpa using mine
          have apart : (t != r.owner) = true := by simpa using Ne.symm mine
          simp [closedResources,blank,other,apart]
    · simp only [Separate,List.map_cons,List.pairwise_cons]
      exact ⟨fun _ _ => .inr rfl,focused.2⟩
  · have outside := Nat.le_of_not_lt bound
    rw [List.set_eq_of_length_le outside,List.getD_eq_default _ _ outside]
    refine ⟨funext fun t => ?_,separate⟩
    by_cases zero : t = 0 <;> simp [openedBy,closedResources,zero]

/-- A context of a sound session is either closed or acquired by its handle. -/
theorem Sound.acquire (sound : s.Sound live) (index : Nat) :
    (s.context index).owner = 0 ∨ ∃ state, s.host.acquireValidated (s.context index) = some state := by
  by_cases bound : index < s.contexts.length
  · have named : s.context index = s.contexts[index] := List.getD_eq_getElem _ _ bound
    have member : s.contexts[index] ∈ s.contexts := List.getElem_mem bound
    by_cases zero : s.contexts[index].owner = 0
    · exact .inl (by rw [named]; exact zero)
    · right
      have isOpen : openedBy s.contexts s.contexts[index].owner = true := by
        simp only [openedBy,Bool.and_eq_true,bne_iff_ne,List.any_eq_true,beq_iff_eq]
        exact ⟨zero,_,member,rfl⟩
      obtain ⟨state,found⟩ := Option.isSome_iff_exists.mp
        (sound.accounted.balanced.registered _ isOpen)
      refine ⟨state,?_⟩
      have active : state.contextActive = true :=
        (sound.accounted.balanced.active _ state found).trans isOpen
      simp [named,Host.acquireValidated,found,active,sound.handles _ member]
  · left
    rw [context,List.getD_eq_default _ _ (Nat.le_of_not_lt bound)]
    rfl

theorem releaseContext_sound (sound : s.Sound live) (index : Nat) :
    (s.step (.releaseContext index)).1.Sound live := by
  have handles : ∀ r ∈ s.contexts.set index closedResources, r.stateHandle = r.owner := by
    intro r member
    rcases List.mem_or_eq_of_mem_set member with old | rfl
    · exact sound.handles r old
    · rfl
  obtain ⟨opened,separate⟩ := close_handle sound.distinct index
  have conclude : ∀ host, Accounted ⟨live,fun t => openedBy s.contexts t && t != (s.context index).owner⟩
      host s.holdings → Sound live
        { s with host := host, contexts := s.contexts.set index closedResources } := by
    intro host accounted
    refine ⟨?_,sound.tidy,handles,separate⟩
    simp only [baseline,opened]
    exact accounted
  simp only [step,Host.releaseEvaluationResources]
  rcases sound.acquire index with closed | ⟨state,acquired⟩
  · have refused : s.host.acquireValidated (s.context index) = none := by
      simp [Host.acquireValidated,closed]
    simp only [refused]
    apply conclude
    have same : (fun t => openedBy s.contexts t && t != (s.context index).owner) =
        openedBy s.contexts := by
      funext t
      by_cases zero : t = 0 <;> simp [openedBy,closed,zero]
    rw [same]
    exact sound.accounted
  · simp only [acquired]
    obtain ⟨found,active,-⟩ := acquire_some acquired
    exact conclude _ (close_accounted sound.accounted found
      ((sound.accounted.balanced.active _ state found).symm.trans active))

theorem makeTuple_sound (sound : s.Sound live) (context : Nat) (failure : HostFailureInjection)
    (start count : Nat) : (s.step (.makeTuple context failure start count)).1.Sound live := by
  obtain ⟨first,isFirst⟩ : ∃ first, first = s.values.take start := ⟨_,rfl⟩
  obtain ⟨elements,isElements⟩ : ∃ elements, elements = (s.values.drop start).take count := ⟨_,rfl⟩
  obtain ⟨last,isLast⟩ : ∃ last, last = (s.values.drop start).drop count := ⟨_,rfl⟩
  have split : s.values = first ++ (elements ++ last) := by
    rw [isFirst,isElements,isLast,List.take_append_drop,List.take_append_drop]
  obtain ⟨beside,isBeside⟩ : ∃ beside, beside = s.workspaces.map (·.holding) ++
    s.tables.map (·.holding) := ⟨_,rfl⟩
  -- The elements' records in front, all others behind them.
  have order : ∀ middle : List Value, ((first ++ (middle ++ last)).flatMap Value.holdings ++ beside).Perm
      (middle.flatMap Value.holdings ++ (first.flatMap Value.holdings ++
        (last.flatMap Value.holdings ++ beside))) := by
    intro middle
    simp only [List.flatMap_append,List.append_assoc]
    exact List.perm_append_comm_assoc ..
  have before := sound.accounted
  rw [holdings,← isBeside,split] at before
  have members : ∀ v ∈ elements, v.Tidy fun _ => True := fun v member =>
    sound.tidy v (by rw [split]; simp [member])
  have outer : ∀ middle : List Value, (∀ v ∈ middle, v.Tidy fun _ => True) →
      ∀ v ∈ first ++ (middle ++ last), v.Tidy fun _ => True := by
    intro middle tidy v member
    rcases List.mem_append.mp member with inFirst | later
    · exact sound.tidy v (by rw [split]; simp [inFirst])
    · rcases List.mem_append.mp later with inMiddle | inLast
      · exact tidy v inMiddle
      · exact sound.tidy v (by rw [split]; simp [inLast])
  have made := makeTupleValue_accounted (r := s.context context) failure
    (before.perm (order elements)) members
  have vacated : ∀ {host : Host} {rest : List Holding}, Accounted (s.baseline live) host rest →
      Accounted (s.baseline live) host
        ((elements.map fun _ => invalidConstructionValue).flatMap Value.holdings ++ rest) := by
    intro host rest accounted
    generalize elements = es
    induction es with
    | nil => exact accounted
    | cons _ es ih => exact (emptyHoldings_kept ih).accounted
  simp only [step,← isElements,← isFirst,← isLast]
  split
  · rename_i used host left failed equal
    rw [equal] at made
    obtain ⟨rfl,accounted⟩ := made
    exact ⟨by rw [holdings,← isBeside]; exact accounted.perm (order _).symm,outer _ members,
      sound.handles,sound.distinct⟩
  · rename_i used host left v equal
    rw [equal] at made
    obtain ⟨rfl,tidy,accounted⟩ := made
    have blanks : ∀ w ∈ elements.map fun _ => invalidConstructionValue, w.Tidy fun _ => True := by
      intro w member
      obtain ⟨-,-,rfl⟩ := List.mem_map.mp member
      exact ⟨emptyVectorOf_tidy _,trivial,emptyTuple_tidy trivial⟩
    have swapped := vacated accounted
    have placed : Sound live { s with
        host := host
        values := first ++ ((elements.map fun _ => invalidConstructionValue) ++ last) ++ [v] } := by
      refine ⟨?_,fun w member => ?_,sound.handles,sound.distinct⟩
      · rw [holdings,← isBeside]
        refine swapped.perm ?_
        have moved := (order (elements.map fun _ => invalidConstructionValue)).symm
        simp only [List.flatMap_append,List.flatMap_cons,List.flatMap_nil,List.append_nil,
          List.append_assoc] at moved ⊢
        rw [List.perm_iff_count] at moved ⊢
        intro x
        have share := moved x
        simp only [List.count_append] at share ⊢
        omega
      · rcases List.mem_append.mp member with old | new
        · exact outer _ blanks w old
        · exact (List.mem_singleton.mp new) ▸ tidy
    exact placed

/-- Every operation keeps a session sound, admitted or refused. -/
theorem step_sound (sound : s.Sound live) (operation : ResourceOperation) :
    (s.step operation).1.Sound live := by
  cases operation with
  | makeScalar scalar => exact sound.addValue (kept_empty sound.accounted rfl rfl)
  | moveValue source target => exact moveValue_sound sound source target
  | allocateVector context type count work =>
    have after := allocateVector_accounted (r := s.context context) sound.accounted type count work
    simp only [step]
    split
    · rename_i host fault equal
      rw [equal] at after
      exact sound.onlyHost after
    · rename_i host v equal
      rw [equal] at after
      exact sound.addValue ⟨after,allocateVector_tidy equal⟩
  | chargeWork context work => exact sound.onlyHost (chargeWork_accounted sound.accounted work)
  | reserveWorkspace context bytes work =>
    have after := reserveWorkspace_accounted (r := s.context context) sound.accounted bytes work
    simp only [step]
    split
    · rename_i host fault equal
      rw [equal] at after
      exact sound.onlyHost after
    · rename_i host w equal
      rw [equal] at after
      refine ⟨after.perm ?_,sound.tidy,sound.handles,sound.distinct⟩
      simp only [holdings,List.map_append,List.map_cons,List.map_nil,List.append_assoc]
      rw [List.perm_iff_count]
      intro x
      simp only [List.count_append]
      omega
  | releaseWorkspace context index =>
    simp only [step]
    split
    · exact sound
    · rename_i w found
      exact sound.setWorkspace found fun rest accounted => releaseWorkspace_accounted accounted
  | dropWorkspace index =>
    simp only [step]
    split
    · exact sound
    · rename_i w found
      exact sound.setWorkspace found fun rest accounted =>
        (Accounted.cons_empty rfl rfl).mpr accounted.free
  | reserveTupleTable context count =>
    have after := reserveTupleTable_accounted (r := s.context context) sound.accounted count
    simp only [step]
    split
    · rename_i host fault equal
      rw [equal] at after
      exact sound.onlyHost after
    · rename_i host t equal
      rw [equal] at after
      refine ⟨after.perm ?_,sound.tidy,sound.handles,sound.distinct⟩
      simp only [holdings,List.map_append,List.map_cons,List.map_nil]
      rw [List.perm_iff_count]
      intro x
      simp only [List.count_append]
      omega
  | releaseTupleTable context index =>
    simp only [step]
    split
    · exact sound
    · rename_i t found
      exact sound.setTable found fun rest accounted => releaseTupleTable_accounted accounted
  | dropTupleTable index =>
    simp only [step]
    split
    · exact sound
    · rename_i t found
      exact sound.setTable found fun rest accounted =>
        (Accounted.cons_empty rfl rfl).mpr accounted.free
  | makeTuple context failure start count => exact makeTuple_sound sound context failure start count
  | releaseVector context failure index =>
    simp only [step]
    split
    · exact sound
    · rename_i v found
      exact sound.putValue found (releaseVectorReservation_kept failure (sound.kept found))
  | releaseValue context failure index =>
    simp only [step]
    split
    · exact sound
    · rename_i v found
      exact sound.putValue found (releaseValueReservations_kept failure (sound.kept found))
  | detachValue context index =>
    simp only [step]
    split
    · exact sound
    · rename_i v found
      exact sound.putValue found (detachValueReservations_kept (sound.kept found))
  | destroyValue failure index =>
    simp only [step]
    split
    · exact sound
    · rename_i v found
      exact sound.putValue found (destroyValue_kept failure (sound.kept found))
  | destroyProvenValue index =>
    simp only [step]
    split
    · exact sound
    · rename_i v found
      exact sound.putValue found (destroyProvenValue_kept (sound.kept found))
  | dropValue index =>
    simp only [step]
    split
    · exact sound
    · rename_i v found
      exact sound.putValue found (emptyHoldings_kept (sound.kept found).dropped)
  | releaseContext context => exact releaseContext_sound sound context

theorem run_sound (sound : s.Sound live) (operations : List ResourceOperation) :
    (s.run operations).Sound live := by
  induction operations generalizing s with
  | nil => exact sound
  | cons operation rest ih => exact ih (step_sound sound operation)

end ResourceSession

/-- The registries while contexts are only being opened. -/
structure Host.JustOpened (h : Host) (contexts : List EvaluationResources) : Prop where
  buffers : h.buffers = []
  states : ∀ t s, h.findState t = some s → s.referenceCount = 1 ∧ s.contextActive = true ∧
    s.account.Sized ∧ ∃ r ∈ contexts, r.owner = t
  handles : ∀ r ∈ contexts, r.stateHandle = r.owner
  registered : ∀ r ∈ contexts, r.owner ≠ 0 → (h.findState r.owner).isSome
  distinct : ResourceSession.Separate contexts
  unused : h.nextResourceToken ≠ 0 → ∀ t, h.nextResourceToken ≤ t → h.findState t = none

theorem makeResourceRecord_opened {h : Host} {contexts : List EvaluationResources} {a : Account}
    (opened : h.JustOpened contexts) (sized : a.Sized) :
    (h.makeResourceRecord a).1.JustOpened (contexts ++ [(h.makeResourceRecord a).2]) := by
  have appended : ∀ r : EvaluationResources, (∀ c ∈ contexts, c.owner ≠ r.owner ∨ c.owner = 0) →
      ResourceSession.Separate (contexts ++ [r]) := by
    intro r apart
    simp only [ResourceSession.Separate,List.map_append,List.map_cons,List.map_nil]
    refine List.pairwise_append.mpr ⟨opened.distinct,List.pairwise_singleton _ _,?_⟩
    intro a member b single
    obtain ⟨c,inside,rfl⟩ := List.mem_map.mp member
    exact (List.mem_singleton.mp single) ▸ apart c inside
  unfold Host.makeResourceRecord
  dsimp only
  split
  · refine ⟨opened.buffers,fun t s found => ?_,fun r member => ?_,fun r member => ?_,
      appended _ fun c _ => ?_,opened.unused⟩
    · obtain ⟨one,active,sized,r,member,owner⟩ := opened.states t s found
      exact ⟨one,active,sized,r,List.mem_append_left _ member,owner⟩
    · rcases List.mem_append.mp member with old | new
      · exact opened.handles r old
      · exact (List.mem_singleton.mp new) ▸ rfl
    · rcases List.mem_append.mp member with old | new
      · exact opened.registered r old
      · exact fun nonzero => absurd (congrArg (·.owner) (List.mem_singleton.mp new)) nonzero
    · exact (Decidable.em (c.owner = 0)).symm
  · rename_i fresh
    have found : ∀ t, Host.findState (({ h with nextResourceToken :=
        if h.nextResourceToken = 2 ^ 64 - 1 then 0 else h.nextResourceToken + 1 } : Host).setState
          h.nextResourceToken (some ⟨1,true,a⟩)) t =
        if t = h.nextResourceToken then some ⟨1,true,a⟩ else h.findState t := by
      intro t
      rw [Host.findState_setState]
      by_cases zero : t = 0
      · simp [zero,Ne.symm fresh]
      · simp [zero,Host.findState]
    refine ⟨opened.buffers,fun t s state => ?_,fun r member => ?_,fun r member nonzero => ?_,
      appended _ fun c member => ?_,fun more t above => ?_⟩
    · rw [found] at state
      split at state
      · rename_i mine
        cases state
        exact ⟨rfl,rfl,sized,_,List.mem_append_right _ (List.mem_singleton.mpr rfl),mine.symm⟩
      · obtain ⟨one,active,sized,r,member,owner⟩ := opened.states t s state
        exact ⟨one,active,sized,r,List.mem_append_left _ member,owner⟩
    · rcases List.mem_append.mp member with old | new
      · exact opened.handles r old
      · exact (List.mem_singleton.mp new) ▸ rfl
    · rw [found]
      split
      · rfl
      · rename_i other
        rcases List.mem_append.mp member with old | new
        · exact opened.registered r old nonzero
        · exact absurd (congrArg (·.owner) (List.mem_singleton.mp new)) other
    · by_cases zero : c.owner = 0
      · exact .inr zero
      · refine .inl fun same => ?_
        have present := opened.registered c member zero
        rw [opened.unused fresh c.owner (Nat.le_of_eq same.symm)] at present
        cases present
    · rw [found]
      simp only [Host.setState] at more above
      split at above
      · rename_i exhausted
        simp [exhausted] at more
      · rw [if_neg (by omega)]
        exact opened.unused fresh t (by omega)

theorem openContexts_opened {accounts : List Account} (sized : ∀ a ∈ accounts, a.Sized) {h : Host}
    {contexts : List EvaluationResources} (opened : h.JustOpened contexts) :
    (openContexts h accounts).1.JustOpened (contexts ++ (openContexts h accounts).2) := by
  induction accounts generalizing h contexts with
  | nil => simpa [openContexts] using opened
  | cons a rest ih =>
    have next := ih (fun b member => sized b (List.mem_cons_of_mem _ member))
      (makeResourceRecord_opened opened (sized a (List.mem_cons_self ..)))
    simpa [openContexts] using next

section Session

variable {bufferPlan : Nat → Nat → HostResourceErrorReason}
  {arrayPlan : Nat → HostResourceErrorReason} {accounts : List Account}

/-- The live bytes each context starts with. -/
def ResourceSession.liveAtStart (s : ResourceSession) (token : Nat) : Nat :=
  (s.host.findState token).elim 0 (·.account.liveEvaluationBytes)

theorem startSession_sound (sized : ∀ a ∈ accounts, a.Sized) :
    (startSession bufferPlan arrayPlan accounts).Sound
      (startSession bufferPlan arrayPlan accounts).liveAtStart := by
  have none : (emptyHost bufferPlan arrayPlan).JustOpened [] := by
    refine ⟨rfl,fun t s found => ?_,by simp,by simp,List.Pairwise.nil,fun _ t _ => ?_⟩
    · unfold Host.findState emptyHost at found
      split at found <;> cases found
    · unfold Host.findState emptyHost
      split <;> rfl
  have opened := openContexts_opened sized none
  rw [List.nil_append] at opened
  refine ⟨⟨⟨?_,?_,?_,?_,?_,?_,?_,?_,?_⟩,List.nodup_nil,by simp [startSession,ResourceSession.holdings]⟩,
    by simp [startSession],opened.handles,opened.distinct⟩
  · simp [startSession,opened.buffers,KeyedList.Distinct]
  · simp [startSession,opened.buffers]
  · simp [startSession,opened.buffers]
  · intro t s found
    have none : (startSession bufferPlan arrayPlan accounts).host.activeBytes t = 0 := by
      simp [Host.activeBytes,startSession,opened.buffers,KeyedList.total]
    rw [none]
    simp [ResourceSession.baseline,ResourceSession.liveAtStart,found]
  · intro t s found
    obtain ⟨one,active,-,-⟩ := opened.states t s found
    simp [one,active,Host.activeBindings,startSession,opened.buffers,KeyedList.total]
  · intro t s found
    rw [(opened.states t s found).1]
    exact Nat.one_pos
  · intro t s found
    obtain ⟨-,active,-,r,member,owner⟩ := opened.states t s found
    have nonzero : t ≠ 0 := fun zero => by simp [zero] at found
    have isOpen : ResourceSession.openedBy (openContexts (emptyHost bufferPlan arrayPlan) accounts).2 t
        = true := by
      simp only [ResourceSession.openedBy,Bool.and_eq_true,bne_iff_ne,List.any_eq_true,beq_iff_eq]
      exact ⟨nonzero,r,member,owner⟩
    exact active.trans isOpen.symm
  · intro t isOpen
    simp only [ResourceSession.baseline,startSession,ResourceSession.openedBy,Bool.and_eq_true,
      bne_iff_ne,List.any_eq_true,beq_iff_eq] at isOpen
    obtain ⟨nonzero,r,member,rfl⟩ := isOpen
    exact opened.registered r member nonzero
  · exact fun t s found => (opened.states t s found).2.2.1

/-- After any operations, each state's live bytes are those it started with plus its
active bindings', its references are its active bindings and its open handle, and it
is registered exactly while that count is not zero. -/
theorem session_accounting (bufferPlan : Nat → Nat → HostResourceErrorReason)
    (arrayPlan : Nat → HostResourceErrorReason) {accounts : List Account}
    (sized : ∀ a ∈ accounts, a.Sized) (operations : List ResourceOperation) (token : Nat) :
    let start := startSession bufferPlan arrayPlan accounts
    let s := start.run operations
    (∀ state, s.host.findState token = some state →
      state.account.liveEvaluationBytes = start.liveAtStart token + s.host.activeBytes token ∧
      state.referenceCount = s.host.activeBindings token + (s.opened token).toNat) ∧
    (s.host.findState token = none ↔ s.host.activeBindings token + (s.opened token).toNat = 0) := by
  intro start s
  have sound : s.Sound start.liveAtStart :=
    ResourceSession.run_sound (startSession_sound sized) operations
  clear_value start s
  have balanced := sound.accounted.balanced
  have counted : ∀ state, s.host.findState token = some state →
      state.referenceCount = s.host.activeBindings token + (s.opened token).toNat := by
    intro state found
    rw [balanced.references token state found,balanced.active token state found]
    rfl
  refine ⟨fun state found => ⟨balanced.live token state found,counted state found⟩,?_,?_⟩
  · intro gone
    have closed : s.opened token = false := by
      by_contra still
      have isOpen : s.opened token = true := by simpa using still
      have present := balanced.registered token isOpen
      rw [gone] at present
      cases present
    have unbound : ∀ r ∈ s.host.buffers, boundCount token r = 0 := by
      intro r member
      unfold boundCount
      rw [if_neg]
      rintro ⟨active,rfl⟩
      have present := balanced.owned r member active
      rw [gone] at present
      cases present
    have zero : s.host.activeBindings token = 0 := by
      simp only [Host.activeBindings,KeyedList.total]
      rw [List.map_congr_left unbound]
      simp
    rw [zero,closed]
    rfl
  · intro zero
    cases found : s.host.findState token with
    | none => rfl
    | some state =>
      have positive := balanced.referenced token state found
      have count := counted state found
      omega

/-- A context without limits, as `make_trusted_local_v2_resources` configures it. -/
def trustedLocalV2Account : Account := ⟨.trustedLocalV2,⟨none,none,none,none⟩,.none,none,0,0,0⟩

theorem trustedLocalV2Account_sized : trustedLocalV2Account.Sized :=
  ⟨Nat.zero_le _,Nat.zero_le _,Nat.zero_le _⟩

/-- A vector outlives its closed context and keeps the state registered until it is dropped. -/
theorem session_accounting_outlived :
    let start := startSession (fun _ _ => .none) (fun _ => .none) [trustedLocalV2Account]
    let kept := start.run [.allocateVector 0 .integer 3 3,.releaseContext 0]
    let freed := start.run [.allocateVector 0 .integer 3 3,.releaseContext 0,.dropValue 0]
    (∀ state, kept.host.findState 1 = some state →
      state.account.liveEvaluationBytes = 24 ∧ state.referenceCount = 1) ∧
    kept.host.findState 1 ≠ none ∧ freed.host.findState 1 = none := by
  have sized : ∀ a ∈ [trustedLocalV2Account], a.Sized := by
    simpa using trustedLocalV2Account_sized
  have kept := session_accounting (fun _ _ => .none) (fun _ => .none) sized
    [.allocateVector 0 .integer 3 3,.releaseContext 0] 1
  have freed := session_accounting (fun _ _ => .none) (fun _ => .none) sized
    [.allocateVector 0 .integer 3 3,.releaseContext 0,.dropValue 0] 1
  exact ⟨kept.1,fun gone => absurd (kept.2.mp gone) (by decide),freed.2.mpr (by decide)⟩

end Session
end Bennu
