import Bennu.TupleConstruction

/-! The accounting invariant of the host registries. A state's live bytes and
references are the sums of its active bindings, and every record that a value,
table or workspace carries agrees with the binding of its own buffer. -/
namespace Bennu

open KeyedList

namespace Host

@[simp] theorem findState_zero (h : Host) : h.findState 0 = none := rfl

theorem findState_setState (h : Host) (owner : Nat) (state : Option EvaluationResourceState)
    (t : Nat) : (h.setState owner state).findState t =
      if t = 0 then none else if t = owner then state else h.findState t := by
  by_cases zero : t = 0
  · simp [zero]
  · simp [findState,setState,zero]

theorem findState_modifyAccount (h : Host) (owner : Nat) (f : Account → Account) (t : Nat) :
    (h.modifyAccount owner f).findState t =
      if t = owner then (h.findState owner).map fun s => { s with account := f s.account }
      else h.findState t := by
  unfold modifyAccount
  by_cases zero : t = 0
  · subst zero
    by_cases same : 0 = owner
    · simp [← same]
    · simp [same]
  · cases found : h.findState owner with
    | none =>
      by_cases same : t = owner
      · simp [same,found]
      · simp [same]
    | some s => simp [findState_setState,zero]

theorem findState_retain (h : Host) (owner t : Nat) :
    (h.retainAccountingOwner owner).findState t =
      if t = owner then (h.findState owner).map fun s =>
        { s with referenceCount := s.referenceCount + 1 }
      else h.findState t := by
  unfold retainAccountingOwner
  by_cases zero : t = 0
  · subst zero
    by_cases same : 0 = owner
    · simp [← same]
    · simp [same]
  · cases found : h.findState owner with
    | none =>
      by_cases same : t = owner
      · simp [same,found]
      · simp [same]
    | some s => simp [findState_setState,zero]

theorem findState_release (h : Host) (owner t : Nat) :
    (h.releaseAccountingOwner owner).findState t =
      if t = owner then (h.findState owner).bind fun s =>
        if s.referenceCount - 1 = 0 then none
        else some { s with referenceCount := s.referenceCount - 1 }
      else h.findState t := by
  unfold releaseAccountingOwner
  by_cases zero : t = 0
  · subst zero
    by_cases same : 0 = owner
    · simp [← same]
    · cases found : h.findState owner with
      | none => simp [same]
      | some s => by_cases last : s.referenceCount - 1 = 0 <;> simp [last,same]
  · cases found : h.findState owner with
    | none =>
      by_cases same : t = owner
      · simp [same,found]
      · simp [same]
    | some s =>
      by_cases last : s.referenceCount - 1 = 0 <;> simp [last,findState_setState,zero]

@[simp] theorem buffers_setState (h : Host) (owner : Nat) (state : Option EvaluationResourceState) :
    (h.setState owner state).buffers = h.buffers := rfl

@[simp] theorem nextPayload_setState (h : Host) (owner : Nat)
    (state : Option EvaluationResourceState) : (h.setState owner state).nextPayload = h.nextPayload := rfl

@[simp] theorem buffers_modifyAccount (h : Host) (owner : Nat) (f : Account → Account) :
    (h.modifyAccount owner f).buffers = h.buffers := by
  unfold modifyAccount
  split <;> rfl

@[simp] theorem buffers_retain (h : Host) (owner : Nat) :
    (h.retainAccountingOwner owner).buffers = h.buffers := by
  unfold retainAccountingOwner
  split <;> rfl

@[simp] theorem buffers_release (h : Host) (owner : Nat) :
    (h.releaseAccountingOwner owner).buffers = h.buffers := by
  unfold releaseAccountingOwner
  split
  · rfl
  · split <;> rfl

@[simp] theorem nextPayload_modifyAccount (h : Host) (owner : Nat) (f : Account → Account) :
    (h.modifyAccount owner f).nextPayload = h.nextPayload := by
  unfold modifyAccount
  split <;> rfl

@[simp] theorem nextPayload_retain (h : Host) (owner : Nat) :
    (h.retainAccountingOwner owner).nextPayload = h.nextPayload := by
  unfold retainAccountingOwner
  split <;> rfl

@[simp] theorem nextPayload_release (h : Host) (owner : Nat) :
    (h.releaseAccountingOwner owner).nextPayload = h.nextPayload := by
  unfold releaseAccountingOwner
  split
  · rfl
  · split <;> rfl

end Host

/-- The bytes a record charges to an owner. -/
def boundBytes (owner : Nat) (r : HostAllocationRecord) : Nat :=
  if r.semantic.active ∧ r.semantic.ownerToken = owner then r.semantic.canonicalBytes else 0

/-- The references a record keeps on an owner. -/
def boundCount (owner : Nat) (r : HostAllocationRecord) : Nat :=
  if r.semantic.active ∧ r.semantic.ownerToken = owner then 1 else 0

/-- What a balance is measured against: the live bytes each state started with and
the contexts whose handles are still open. -/
structure Baseline where
  live : Nat → Nat
  opened : Nat → Bool

namespace Host

def activeBytes (h : Host) (owner : Nat) : Nat := total (boundBytes owner) h.buffers

def activeBindings (h : Host) (owner : Nat) : Nat := total (boundCount owner) h.buffers

/-- Every registered state counts exactly its active bindings, and every active
binding and every open context has a registered state. -/
structure Balanced (initial : Baseline) (h : Host) : Prop where
  distinct : Distinct HostAllocationRecord.payload h.buffers
  fresh : ∀ r ∈ h.buffers, r.payload < h.nextPayload
  owned : ∀ r ∈ h.buffers, r.semantic.active = true → (h.findState r.semantic.ownerToken).isSome
  live : ∀ t s, h.findState t = some s →
    s.account.liveEvaluationBytes = initial.live t + h.activeBytes t
  references : ∀ t s, h.findState t = some s →
    s.referenceCount = h.activeBindings t + s.contextActive.toNat
  referenced : ∀ t s, h.findState t = some s → 0 < s.referenceCount
  active : ∀ t s, h.findState t = some s → s.contextActive = initial.opened t
  registered : ∀ t, initial.opened t = true → (h.findState t).isSome
  sized : ∀ t s, h.findState t = some s → s.account.Sized

variable {initial : Baseline} {h : Host}

/-- Counters other than the live bytes may change freely. -/
theorem Balanced.modify (balanced : h.Balanced initial) (owner : Nat) {f : Account → Account}
    (same : ∀ s, h.findState owner = some s →
      (f s.account).liveEvaluationBytes = s.account.liveEvaluationBytes ∧ (f s.account).Sized) :
    (h.modifyAccount owner f).Balanced initial := by
  have found : ∀ t s, (h.modifyAccount owner f).findState t = some s → ∃ s', h.findState t = some s' ∧
      s.account.liveEvaluationBytes = s'.account.liveEvaluationBytes ∧
      s.referenceCount = s'.referenceCount ∧ s.contextActive = s'.contextActive ∧
      s.account.Sized := by
    intro t s state
    rw [findState_modifyAccount] at state
    split at state
    · rename_i equal
      subst equal
      obtain ⟨s',before,rfl⟩ := Option.map_eq_some_iff.mp state
      exact ⟨s',before,(same s' before).1,rfl,rfl,(same s' before).2⟩
    · exact ⟨s,state,rfl,rfl,rfl,balanced.sized t s state⟩
  have present : ∀ t, (h.findState t).isSome → ((h.modifyAccount owner f).findState t).isSome := by
    intro t before
    rw [findState_modifyAccount]
    split
    · rename_i equal
      simpa [equal] using before
    · exact before
  refine ⟨by simpa using balanced.distinct,by simpa using balanced.fresh,?_,?_,?_,?_,?_,?_,?_⟩
  · exact fun r member active => present _ (balanced.owned r (by simpa using member) active)
  · intro t s state
    obtain ⟨s',before,live,-,-⟩ := found t s state
    simpa [activeBytes,live] using balanced.live t s' before
  · intro t s state
    obtain ⟨s',before,-,references,context,-⟩ := found t s state
    simpa [activeBindings,references,context] using balanced.references t s' before
  · intro t s state
    obtain ⟨s',before,-,references,-⟩ := found t s state
    exact references ▸ balanced.referenced t s' before
  · intro t s state
    obtain ⟨s',before,-,-,context,-⟩ := found t s state
    exact context ▸ balanced.active t s' before
  · exact fun t opened => present t (balanced.registered t opened)
  · intro t s state
    obtain ⟨_,_,-,-,-,sized⟩ := found t s state
    exact sized

/-- Ending one active binding, whether its record stays or goes, refunds its
bytes and drops its reference. -/
theorem Balanced.unbind (balanced : h.Balanced initial) (buffers : List HostAllocationRecord)
    {r : HostAllocationRecord} (member : r ∈ h.buffers) (active : r.semantic.active = true)
    (bytes : ∀ t, total (boundBytes t) buffers + boundBytes t r = h.activeBytes t)
    (count : ∀ t, total (boundCount t) buffers + boundCount t r = h.activeBindings t)
    (distinct : Distinct HostAllocationRecord.payload buffers)
    (kept : ∀ x ∈ buffers, ∃ y ∈ h.buffers, y.payload = x.payload ∧ (x.semantic.active = true → y = x)) :
    ((refundOwner { h with buffers := buffers } r.semantic.ownerToken
      r.semantic.canonicalBytes).releaseAccountingOwner r.semantic.ownerToken).Balanced initial := by
  have same : ∀ t, findState { h with buffers := buffers } t = h.findState t := fun _ => rfl
  obtain ⟨s,owner⟩ := Option.isSome_iff_exists.mp (balanced.owned r member active)
  have live := balanced.live _ s owner
  have references := balanced.references _ s owner
  have ownBytes : boundBytes r.semantic.ownerToken r = r.semantic.canonicalBytes := by
    simp [boundBytes,active]
  have ownCount : boundCount r.semantic.ownerToken r = 1 := by simp [boundCount,active]
  have covered : r.semantic.canonicalBytes ≤ s.account.liveEvaluationBytes := by
    have share := bytes r.semantic.ownerToken
    omega
  have found : ∀ t, ((refundOwner { h with buffers := buffers } r.semantic.ownerToken
      r.semantic.canonicalBytes).releaseAccountingOwner r.semantic.ownerToken).findState t =
      if t = r.semantic.ownerToken then
        if s.referenceCount - 1 = 0 then none
        else some { s with
          referenceCount := s.referenceCount - 1
          account := s.account.refund r.semantic.canonicalBytes }
      else h.findState t := by
    intro t
    simp only [findState_release,refundOwner,findState_modifyAccount,same,if_true,owner,
      Option.map_some,Option.bind_some]
    split <;> simp_all
  have other : ∀ t, t ≠ r.semantic.ownerToken → boundBytes t r = 0 ∧ boundCount t r = 0 := by
    intro t different
    simp [boundBytes,boundCount,active,Ne.symm different]
  refine ⟨by simpa [refundOwner] using distinct,?_,?_,?_,?_,?_,?_,?_,?_⟩
  · intro x memberX
    obtain ⟨y,memberY,payload,-⟩ := kept x (by simpa [refundOwner] using memberX)
    simpa [refundOwner,← payload] using balanced.fresh y memberY
  · intro x memberX activeX
    have memberX : x ∈ buffers := by simpa [refundOwner] using memberX
    obtain ⟨y,memberY,-,equal⟩ := kept x memberX
    rw [found]
    split
    · rename_i mine
      -- A second binding of this owner keeps its state registered.
      have counted := share_le_total (boundCount r.semantic.ownerToken) distinct memberX
      have one : boundCount r.semantic.ownerToken x = 1 := by simp [boundCount,activeX,mine]
      have share := count r.semantic.ownerToken
      rw [if_neg (by omega)]
      rfl
    · exact equal activeX ▸ balanced.owned y memberY (equal activeX ▸ activeX)
  · intro t state
    rw [found]
    intro registered
    have share := bytes t
    split at registered
    · rename_i mine
      split at registered
      · cases registered
      · cases registered
        subst mine
        simp only [Account.refund,if_pos covered,activeBytes,buffers_release,refundOwner,
          buffers_modifyAccount]
        omega
    · rename_i different
      have none := (other t different).1
      have before := balanced.live t state registered
      simp only [activeBytes,buffers_release,refundOwner,buffers_modifyAccount]
      omega
  · intro t state
    rw [found]
    intro registered
    have share := count t
    split at registered
    · rename_i mine
      split at registered
      · cases registered
      · cases registered
        subst mine
        simp only [activeBindings,buffers_release,refundOwner,buffers_modifyAccount]
        omega
    · rename_i different
      have none := (other t different).2
      have before := balanced.references t state registered
      simp only [activeBindings,buffers_release,refundOwner,buffers_modifyAccount]
      omega
  · intro t state
    rw [found]
    intro registered
    split at registered
    · split at registered
      · cases registered
      · rename_i remaining
        cases registered
        exact Nat.pos_of_ne_zero remaining
    · exact balanced.referenced t state registered
  · intro t state
    rw [found]
    intro registered
    split at registered
    · rename_i mine
      split at registered
      · cases registered
      · cases registered
        exact mine ▸ balanced.active _ s owner
    · exact balanced.active t state registered
  · intro t opened
    rw [found]
    split
    · rename_i mine
      -- The open context and this binding are two references, so one remains.
      have context := balanced.active _ s owner
      have share := count r.semantic.ownerToken
      rw [context,← mine,opened,Bool.toNat_true,mine] at references
      rw [if_neg (by omega)]
      rfl
    · exact balanced.registered t opened
  · intro t state
    rw [found]
    intro registered
    split at registered
    · split at registered
      · cases registered
      · cases registered
        exact (balanced.sized _ s owner).refund _
    · exact balanced.sized t state registered

end Host

/-- A record agrees with the registry: either its accounting has ended and its
buffer is not bound, or it is active and the binding of its buffer is exactly its own. -/
def Holding.Backed (h : Host) (x : Holding) : Prop :=
  (x.owner = 0 ∧ ∀ p, x.storage = some p → ∃ r, h.findRecord p = some r ∧ r.semantic.active = false) ∨
  (x.owner ≠ 0 ∧ x.active = true ∧ x.bytes ≠ 0 ∧ h.holdingMatches x = true)

/-- The registries balance, no two records share a buffer, and each is backed. -/
structure Accounted (initial : Baseline) (h : Host) (xs : List Holding) : Prop where
  balanced : h.Balanced initial
  separate : (xs.filterMap (·.storage)).Nodup
  backed : ∀ x ∈ xs, x.Backed h

theorem matches_record {h : Host} {x : Holding} (ok : h.holdingMatches x = true) :
    ∃ p o r, x.storage = some p ∧ x.ordinal = some o ∧ x.owner ≠ 0 ∧ h.findRecord p = some r ∧
      r.semantic = ⟨x.owner,x.bytes,o,x.purpose,true⟩ := by
  unfold Host.holdingMatches Host.semanticHostBufferMatches at ok
  split at ok
  · rename_i p o storage ordinal
    cases found : h.findRecord p with
    | none => simp [found] at ok
    | some r =>
      simp only [found,Host.bindingMatches,Bool.and_eq_true,decide_eq_true_eq,beq_iff_eq] at ok
      obtain ⟨owner,⟨⟨⟨active,token⟩,bytes⟩,ord⟩,purpose⟩ := ok
      refine ⟨p,o,r,storage,ordinal,owner,found,?_⟩
      rcases r with ⟨_,_,_,⟨_,_,_,_,_⟩⟩
      simp_all
  · cases ok

theorem Holding.Backed.storage_record {h : Host} {x : Holding} (backed : x.Backed h) {p : Nat}
    (storage : x.storage = some p) : ∃ r, h.findRecord p = some r := by
  rcases backed with ⟨-,unbound⟩ | ⟨-,-,-,bound⟩
  · obtain ⟨r,found,-⟩ := unbound p storage
    exact ⟨r,found⟩
  · obtain ⟨q,_,r,storage',-,-,found,-⟩ := matches_record bound
    cases storage.symm.trans storage'
    exact ⟨r,found⟩

/-- Backing only depends on the record of the buffer itself. -/
theorem Holding.Backed.congr {h h' : Host} {x : Holding} (backed : x.Backed h)
    (same : ∀ p, x.storage = some p → h'.findRecord p = h.findRecord p) : x.Backed h' := by
  rcases backed with ⟨owner,unbound⟩ | ⟨owner,active,bytes,bound⟩
  · exact .inl ⟨owner,fun p storage => by rw [same p storage]; exact unbound p storage⟩
  · refine .inr ⟨owner,active,bytes,?_⟩
    obtain ⟨p,o,r,storage,ordinal,-,-,-⟩ := matches_record bound
    simpa [Host.holdingMatches,Host.semanticHostBufferMatches,storage,ordinal,same p storage] using bound

theorem Holding.Backed.of_empty {h : Host} {x : Holding} (owner : x.owner = 0)
    (storage : x.storage = none) : x.Backed h :=
  .inl ⟨owner,fun p found => by rw [storage] at found; cases found⟩

/-- A record without an owner has no binding to consume. -/
theorem consumeHolding_ownerless {h : Host} {x : Holding} (owner : x.owner = 0) :
    h.consumeHolding x = none := by
  simp only [Host.consumeHolding,Host.consumeSemanticHostBuffer]
  rw [if_neg]
  simp only [Host.semanticHostBufferMatches]
  split <;> simp [owner]

namespace Accounted

variable {initial : Baseline} {h : Host} {x z : Holding} {xs ys : List Holding}

theorem perm (accounted : Accounted initial h xs) (order : List.Perm xs ys) :
    Accounted initial h ys :=
  ⟨accounted.balanced,(order.filterMap _).nodup_iff.mp accounted.separate,
    fun x member => accounted.backed x (order.mem_iff.mpr member)⟩

theorem tail (accounted : Accounted initial h (x :: xs)) : Accounted initial h xs := by
  refine ⟨accounted.balanced,?_,fun y member => accounted.backed y (List.mem_cons_of_mem _ member)⟩
  have separate := accounted.separate
  simp only [List.filterMap_cons] at separate
  split at separate
  · exact separate
  · exact (List.nodup_cons.mp separate).2

/-- A record without owner or storage counts for nothing. -/
theorem cons_empty (owner : x.owner = 0) (storage : x.storage = none) :
    Accounted initial h (x :: xs) ↔ Accounted initial h xs := by
  refine ⟨tail,fun accounted => ⟨accounted.balanced,?_,?_⟩⟩
  · simpa [List.filterMap_cons,storage] using accounted.separate
  · intro y member
    rcases List.mem_cons.mp member with rfl | later
    · exact .of_empty owner storage
    · exact accounted.backed y later

theorem head_apart (accounted : Accounted initial h (x :: xs)) {p : Nat} (storage : x.storage = some p) :
    ∀ y ∈ xs, y.storage ≠ some p := by
  have separate := accounted.separate
  simp only [List.filterMap_cons,storage,List.nodup_cons] at separate
  exact fun y member same => separate.1 (List.mem_filterMap.mpr ⟨y,member,same⟩)

theorem modify (accounted : Accounted initial h xs) (owner : Nat) {f : Account → Account}
    (same : ∀ s, h.findState owner = some s →
      (f s.account).liveEvaluationBytes = s.account.liveEvaluationBytes ∧ (f s.account).Sized) :
    Accounted initial (h.modifyAccount owner f) xs :=
  ⟨accounted.balanced.modify owner same,accounted.separate,fun y member =>
    (accounted.backed y member).congr fun p _ => by simp [Host.findRecord]⟩

/-- Replacing the head by a record over the same buffer leaves the others apart. -/
theorem separate_head (accounted : Accounted initial h (x :: xs)) (storage : z.storage = x.storage) :
    ((z :: xs).filterMap (·.storage)).Nodup := by
  simpa [List.filterMap_cons,storage] using accounted.separate

/-- A consumed binding is refunded and dereferenced; the record keeps its buffer. -/
theorem consume (accounted : Accounted initial h (x :: xs)) (owner : x.owner ≠ 0)
    (storage : z.storage = x.storage) (ended : z.owner = 0) :
    ∃ next, h.consumeHolding x = some next ∧
      Accounted initial ((next.refundOwner x.owner x.bytes).releaseAccountingOwner x.owner)
        (z :: xs) := by
  rcases accounted.backed x (List.mem_cons_self ..) with ⟨none,-⟩ | ⟨-,active,nonempty,bound⟩
  · exact absurd none owner
  · obtain ⟨p,o,r,pointer,ordinal,-,found,semantic⟩ := matches_record bound
    have matched : h.semanticHostBufferMatches x.storage x.owner x.bytes x.ordinal x.purpose = true := bound
    obtain ⟨member,key⟩ := KeyedList.lookup_some found
    refine ⟨_,by simp [Host.consumeHolding,Host.consumeSemanticHostBuffer,matched]; rfl,?_⟩
    have keep : ∀ y : HostAllocationRecord, (Host.deactivate y).payload = y.payload := fun _ => rfl
    have distinct := accounted.balanced.distinct
    have ended' : ∀ t, boundBytes t (Host.deactivate r) = 0 ∧ boundCount t (Host.deactivate r) = 0 := by
      simp [boundBytes,boundCount,Host.deactivate]
    have balance := accounted.balanced.unbind
      (KeyedList.adjust HostAllocationRecord.payload p Host.deactivate h.buffers) (r := r) member
      (by simp [semantic])
      (fun t => by
        have share := KeyedList.total_adjust (boundBytes t) (f := Host.deactivate) distinct found
        simpa [Host.activeBytes,(ended' t).1] using share)
      (fun t => by
        have share := KeyedList.total_adjust (boundCount t) (f := Host.deactivate) distinct found
        simpa [Host.activeBindings,(ended' t).2] using share)
      (KeyedList.distinct_adjust keep distinct)
      (fun y inside => by
        obtain ⟨z,memberZ,equal⟩ := List.mem_map.mp inside
        refine ⟨z,memberZ,?_,fun activeY => ?_⟩
        · rw [← equal]
          split <;> simp [Host.deactivate]
        · by_cases here : z.payload = p
          · simp only [here,if_true] at equal
            simp [← equal,Host.deactivate] at activeY
          · simpa [here] using equal)
    simp only [semantic] at balance
    refine ⟨by simpa [pointer] using balance,accounted.separate_head storage,?_⟩
    intro y memberY
    rcases List.mem_cons.mp memberY with rfl | later
    · refine .inl ⟨ended,fun q pointerQ => ?_⟩
      cases pointer.symm.trans (storage.symm.trans pointerQ)
      refine ⟨Host.deactivate r,?_,rfl⟩
      have adjusted : KeyedList.lookup HostAllocationRecord.payload p
          (KeyedList.adjust HostAllocationRecord.payload p Host.deactivate h.buffers) = _ :=
        KeyedList.lookup_adjust keep p
      rw [if_pos rfl] at adjusted
      simp only [Host.findRecord] at found
      simpa [Host.findRecord,Host.refundOwner,pointer,found] using adjusted
    · refine (accounted.backed y (List.mem_cons_of_mem _ later)).congr fun q pointerQ => ?_
      have apart : q ≠ p := fun same => accounted.head_apart pointer y later (same ▸ pointerQ)
      have adjusted : KeyedList.lookup HostAllocationRecord.payload q
          (KeyedList.adjust HostAllocationRecord.payload p Host.deactivate h.buffers) = _ :=
        KeyedList.lookup_adjust keep q
      rw [if_neg apart] at adjusted
      simpa [Host.findRecord,Host.refundOwner,pointer] using adjusted

/-- Freeing a record's buffer ends the record, abandoning a binding it still has. -/
theorem free (accounted : Accounted initial h (x :: xs)) :
    Accounted initial (h.releaseHostBuffer x.storage) xs := by
  cases pointer : x.storage with
  | none => exact accounted.tail
  | some p =>
    obtain ⟨r,found⟩ := (accounted.backed x (List.mem_cons_self ..)).storage_record pointer
    obtain ⟨member,key⟩ := KeyedList.lookup_some found
    have distinct := accounted.balanced.distinct
    have others : ∀ y ∈ xs, ∀ h' : Host,
        h'.buffers = KeyedList.discard HostAllocationRecord.payload p h.buffers → y.Backed h' := by
      intro y later h' buffers
      refine (accounted.backed y (List.mem_cons_of_mem _ later)).congr fun q pointerQ => ?_
      have apart : q ≠ p := fun same => accounted.head_apart pointer y later (same ▸ pointerQ)
      have discarded : KeyedList.lookup HostAllocationRecord.payload q
          (KeyedList.discard HostAllocationRecord.payload p h.buffers) = _ :=
        KeyedList.lookup_discard q
      rw [if_neg apart] at discarded
      simpa [Host.findRecord,buffers] using discarded
    have shares := fun measure => KeyedList.total_discard measure distinct found
    have kept : ∀ y ∈ KeyedList.discard HostAllocationRecord.payload p h.buffers,
        ∃ z ∈ h.buffers, z.payload = y.payload ∧ (y.semantic.active = true → z = y) := fun y inside =>
      ⟨y,List.mem_of_mem_filter inside,rfl,fun _ => rfl⟩
    simp only [Host.releaseHostBuffer,found]
    by_cases active : r.semantic.active = true
    · simp only [active,if_true,Host.releaseAbandonedSemanticAllocation]
      refine ⟨accounted.balanced.unbind _ member active (fun t => shares _) (fun t => shares _)
        (KeyedList.distinct_discard distinct) kept,accounted.tail.separate,fun y later => ?_⟩
      exact others y later _ (by simp [Host.refundOwner])
    · have inert : ∀ t, boundBytes t r = 0 ∧ boundCount t r = 0 := by
        simp [boundBytes,boundCount,active]
      simp only [active,Bool.false_eq_true,if_false]
      refine ⟨⟨KeyedList.distinct_discard distinct,?_,?_,?_,?_,?_,?_,?_,?_⟩,accounted.tail.separate,
        fun y later => others y later _ rfl⟩
      · exact fun y inside => accounted.balanced.fresh y (List.mem_of_mem_filter inside)
      · exact fun y inside => accounted.balanced.owned y (List.mem_of_mem_filter inside)
      · intro t s state
        have share := shares (boundBytes t)
        have before := accounted.balanced.live t s state
        simp only [Host.activeBytes,(inert t).1,Nat.add_zero] at *
        exact before.trans (by rw [share])
      · intro t s state
        have share := shares (boundCount t)
        have before := accounted.balanced.references t s state
        simp only [Host.activeBindings,(inert t).2,Nat.add_zero] at *
        exact before.trans (by rw [share])
      · exact accounted.balanced.referenced
      · exact accounted.balanced.active
      · exact accounted.balanced.registered
      · exact accounted.balanced.sized

/-- Binding a fresh buffer charges its bytes and keeps one reference. -/
theorem bind (accounted : Accounted initial h xs) {s : EvaluationResourceState} {owner : Nat}
    (registered : h.findState owner = some s) {account : Account} {bytes : Nat} (nonempty : bytes ≠ 0)
    (charged : account.liveEvaluationBytes = s.account.liveEvaluationBytes + bytes)
    (sized : account.Sized)
    (element : HostElement) (count ordinal : Nat) (purpose : AllocationPurpose) :
    Accounted initial
      ((h.setAccount owner account).bindFreshBuffer element count owner bytes ordinal purpose)
      (⟨some h.nextPayload,bytes,true,owner,some ordinal,purpose⟩ :: xs) := by
  have positive : owner ≠ 0 := by
    intro zero
    simp [zero] at registered
  obtain ⟨record,isRecord⟩ : ∃ record : HostAllocationRecord, record =
      ⟨h.nextPayload,count * element.width,element,⟨owner,bytes,ordinal,purpose,true⟩⟩ := ⟨_,rfl⟩
  obtain ⟨after,isAfter⟩ : ∃ after, after =
      (h.setAccount owner account).bindFreshBuffer element count owner bytes ordinal purpose := ⟨_,rfl⟩
  have buffers : after.buffers = h.buffers ++ [record] := by
    simp [isAfter,isRecord,Host.bindFreshBuffer,Host.setAccount]
  have next : after.nextPayload = h.nextPayload + 1 := by
    simp [isAfter,Host.bindFreshBuffer,Host.setAccount]
  have found : ∀ t, after.findState t = if t = owner then
      some { s with referenceCount := s.referenceCount + 1, account := account } else h.findState t := by
    intro t
    have same : after.findState t =
        ((h.setAccount owner account).retainAccountingOwner owner).findState t := by
      rw [isAfter]
      rfl
    rw [same,Host.findState_retain]
    simp only [Host.setAccount,Host.findState_modifyAccount,if_true,registered,Option.map_some]
    split <;> simp_all
  have lookup : ∀ p, after.findRecord p =
      (h.findRecord p).or (if h.nextPayload = p then some record else none) := by
    intro p
    simp only [Host.findRecord,buffers,KeyedList.lookup_append]
    rw [isRecord]
  have older : ∀ p r, h.findRecord p = some r → after.findRecord p = some r := by
    intro p r before
    rw [lookup,before]
    rfl
  have unseen : h.findRecord h.nextPayload = none := by
    cases seen : h.findRecord h.nextPayload with
    | none => rfl
    | some r =>
      obtain ⟨member,key⟩ := KeyedList.lookup_some seen
      exact absurd (accounted.balanced.fresh r member) (by omega)
  have byteShare : ∀ t, boundBytes t record = if owner = t then bytes else 0 := by
    simp [isRecord,boundBytes]
  have countShare : ∀ t, boundCount t record = if owner = t then 1 else 0 := by
    simp [isRecord,boundCount]
  rw [← isAfter]
  refine ⟨⟨?_,?_,?_,?_,?_,?_,?_,?_,?_⟩,?_,?_⟩
  · rw [buffers]
    refine KeyedList.distinct_append accounted.balanced.distinct fun r member => ?_
    have older := accounted.balanced.fresh r member
    rw [isRecord]
    exact Nat.ne_of_lt older
  · intro r member
    rw [buffers,List.mem_append,List.mem_singleton] at member
    rw [next]
    rcases member with old | rfl
    · exact Nat.lt_succ_of_lt (accounted.balanced.fresh r old)
    · simp [isRecord]
  · intro r member active
    rw [buffers,List.mem_append,List.mem_singleton] at member
    rw [found]
    split
    · rfl
    · rename_i other
      rcases member with old | rfl
      · exact accounted.balanced.owned r old active
      · exact absurd (by rw [isRecord]) other
  · intro t state
    rw [found]
    simp only [Host.activeBytes,buffers,KeyedList.total_append,byteShare]
    split
    · rename_i mine
      rintro ⟨⟩
      have before := accounted.balanced.live owner s registered
      simp only [Host.activeBytes] at before
      simp only [charged,before,mine,if_true]
      omega
    · rename_i other
      intro before
      simpa [Ne.symm other,Host.activeBytes] using accounted.balanced.live t state before
  · intro t state
    rw [found]
    simp only [Host.activeBindings,buffers,KeyedList.total_append,countShare]
    split
    · rename_i mine
      rintro ⟨⟩
      have before := accounted.balanced.references owner s registered
      simp only [Host.activeBindings] at before
      simp only [before,mine,if_true]
      omega
    · rename_i other
      intro before
      simpa [Ne.symm other,Host.activeBindings] using accounted.balanced.references t state before
  · intro t state
    rw [found]
    split
    · rintro ⟨⟩
      exact Nat.succ_pos _
    · exact accounted.balanced.referenced t state
  · intro t state
    rw [found]
    split
    · rename_i mine
      rintro ⟨⟩
      exact mine ▸ accounted.balanced.active owner s registered
    · exact accounted.balanced.active t state
  · intro t opened
    rw [found]
    split
    · rfl
    · exact accounted.balanced.registered t opened
  · intro t state
    rw [found]
    split
    · rintro ⟨⟩
      exact sized
    · exact accounted.balanced.sized t state
  · simp only [List.filterMap_cons]
    refine List.nodup_cons.mpr ⟨fun member => ?_,accounted.separate⟩
    obtain ⟨y,inside,storage⟩ := List.mem_filterMap.mp member
    obtain ⟨r,seen⟩ := (accounted.backed y inside).storage_record storage
    rw [unseen] at seen
    cases seen
  · intro y member
    rcases List.mem_cons.mp member with rfl | later
    · refine .inr ⟨positive,rfl,nonempty,?_⟩
      have own : after.findRecord h.nextPayload = some record := by simp [lookup,unseen]
      simp [Host.holdingMatches,Host.semanticHostBufferMatches,own,isRecord,Host.bindingMatches,
        positive]
    · refine (accounted.backed y later).congr fun p storage => ?_
      obtain ⟨r,seen⟩ := (accounted.backed y later).storage_record storage
      rw [seen,older p r seen]

/-- The unconditional release of a record, whatever state it is in. -/
theorem releaseProven (accounted : Accounted initial h (x :: xs)) :
    Accounted initial (h.releaseProven x) xs := by
  rcases accounted.backed x (List.mem_cons_self ..) with ⟨owner,-⟩ | ⟨owner,active,-,-⟩
  · have same : h.releaseProven x = h.releaseHostBuffer x.storage := by
      simp [Host.releaseProven,Host.refundHolding,owner,Host.releaseAccountingOwner]
    rw [same]
    exact accounted.free
  · obtain ⟨next,consumed,after⟩ := accounted.consume (z := { x with owner := 0 }) owner rfl rfl
    have same : h.releaseProven x =
        ((next.refundOwner x.owner x.bytes).releaseAccountingOwner x.owner).releaseHostBuffer
          x.storage := by
      simp [Host.releaseProven,Host.refundHolding,owner,active,consumed]
    rw [same]
    exact after.free

theorem refundNothing (accounted : Accounted initial h xs) {owner : Nat} :
    Accounted initial (h.refundOwner owner 0) xs :=
  accounted.modify _ fun s state =>
    ⟨by simp [Account.refund],(accounted.balanced.sized _ s state).refund 0⟩

/-- The checked release ends the accounting of a record of its own context. -/
theorem releaseChecked (accounted : Accounted initial h (x :: xs)) {r : EvaluationResources}
    {bytes : Nat} (mine : x.owner ≠ 0 → x.owner = r.owner ∧ bytes = x.bytes) {next : Host}
    (ok : h.releaseChecked r x bytes = some next) (storage : z.storage = x.storage)
    (ended : z.owner = 0) : Accounted initial next (z :: xs) := by
  by_cases owner : x.owner = 0
  · have unmatched : h.consumeHolding x = none := by
      simp only [Host.consumeHolding,Host.consumeSemanticHostBuffer]
      rw [if_neg]
      simp only [Host.semanticHostBufferMatches]
      split <;> simp [owner]
    have zero : bytes = 0 := by
      by_contra nonzero
      simp [Host.releaseChecked,nonzero,unmatched] at ok
    subst zero
    have backed : z.Backed h := by
      rcases accounted.backed x (List.mem_cons_self ..) with ⟨-,unbound⟩ | ⟨nonzero,-⟩
      · exact .inl ⟨ended,by rw [storage]; exact unbound⟩
      · exact absurd owner nonzero
    have replaced : Accounted initial h (z :: xs) := by
      refine ⟨accounted.balanced,accounted.separate_head storage,fun y member => ?_⟩
      rcases List.mem_cons.mp member with rfl | later
      · exact backed
      · exact accounted.backed y (List.mem_cons_of_mem _ later)
    simp only [Host.releaseChecked,ne_eq,not_true_eq_false,if_false,Option.map_some,owner,
      Option.some.injEq] at ok
    subst ok
    simp only [Host.releaseAccountingOwner,Host.findState_zero]
    split
    · exact replaced.refundNothing
    · exact replaced
  · obtain ⟨own,exactly⟩ := mine owner
    obtain ⟨consumed,isConsumed,after⟩ := accounted.consume (z := z) owner storage ended
    rcases accounted.backed x (List.mem_cons_self ..) with ⟨zero,-⟩ | ⟨-,active,nonempty,-⟩
    · exact absurd zero owner
    · rw [exactly] at ok
      simp only [Host.releaseChecked,nonempty,ne_eq,not_false_eq_true,if_true,isConsumed,
        Option.map_some,active,beq_self_eq_true,Bool.and_self,Option.some.injEq,← own] at ok
      exact ok ▸ after

end Accounted
end Bennu
