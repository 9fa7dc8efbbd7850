import Bennu.Account
import Bennu.KeyedList
import Bennu.Validation
import Mathlib.Logic.Function.Basic

/-! Arrays in host storage: the registry of their allocations, which counts the elements
constructed in each, and the operations that move size, constructed count and capacity. -/
namespace Bennu

/-- The sizes and alignments of one element type and of the header before its payload. -/
structure ArrayLayout where
  elementSize : Nat
  elementAlignment : Nat
  headerSize : Nat
  headerAlignment : Nat

/-- A registered array. -/
structure HostArrayRecord where
  allocation : Nat
  payload : Nat
  byteCount : Nat
  constructed : Nat
  capacity : Nat

structure HostArray where
  storage : Option Nat
  size : Nat
  capacity : Nat

/-- The registered arrays of one element type, which is all that a lookup by this type and
purpose finds, the elements alive in their payloads, and the order in which elements were
destroyed and storage was obtained and freed. -/
structure HostArrayHeap (Element : Type) where
  records : List HostArrayRecord
  cells : Nat → Nat → Option Element
  destroyed : List (Nat × Nat)
  allocated : List Nat
  freed : List Nat

/-! ### The registry -/

namespace HostArrayHeap

variable {Element : Type}

def find (heap : HostArrayHeap Element) (payload : Nat) : Option HostArrayRecord :=
  KeyedList.lookup HostArrayRecord.payload payload heap.records

/-- `register_host_allocation`: `none` if the payload is registered already. -/
def register (heap : HostArrayHeap Element) (record : HostArrayRecord) : Option (HostArrayHeap Element) :=
  if (heap.find record.payload).isSome then none else some { heap with records := record :: heap.records }

/-- `claim_host_array_elements`: `none` if it refuses. -/
def claim (heap : HostArrayHeap Element) (payload expectedCapacity currentSize count : Nat) :
    Option (HostArrayHeap Element) :=
  match heap.find payload with
  | none => none
  | some record =>
    if record.capacity ≠ expectedCapacity ∨ currentSize > record.constructed ∨
        count > record.capacity - currentSize then none
    else
      let claimed := currentSize + count
      if claimed > record.constructed then
        some { heap with
          records := KeyedList.adjust HostArrayRecord.payload payload
            (fun record => { record with constructed := claimed }) heap.records }
      else some heap

def constructAt (heap : HostArrayHeap Element) (payload index : Nat) (value : Element) : HostArrayHeap Element :=
  { heap with
    cells := Function.update heap.cells payload (Function.update (heap.cells payload) index (some value)) }

def destroyAt (heap : HostArrayHeap Element) (payload index : Nat) : HostArrayHeap Element :=
  { heap with
    cells := Function.update heap.cells payload (Function.update (heap.cells payload) index none)
    destroyed := heap.destroyed ++ [(payload,index)] }

/-- The loop of `release_host_array`, from the last constructed element down. -/
def destroyElements (payload : Nat) : Nat → HostArrayHeap Element → HostArrayHeap Element
  | 0,heap => heap
  | index + 1,heap => destroyElements payload index (heap.destroyAt payload index)

/-- `release_host_array`. -/
def release (heap : HostArrayHeap Element) : Option Nat → HostArrayHeap Element
  | none => heap
  | some payload =>
    match heap.find payload with
    | none => heap
    | some record =>
      let removed := { heap with records := KeyedList.discard HostArrayRecord.payload payload heap.records }
      let emptied := removed.destroyElements payload record.constructed
      { emptied with freed := emptied.freed ++ [record.allocation] }

end HostArrayHeap

/-! ### The operations -/

namespace ArrayLayout

def alignment (layout : ArrayLayout) : Nat :=
  if layout.elementAlignment > layout.headerAlignment then layout.elementAlignment else layout.headerAlignment

/-- The payload behind the header of an allocation; alignments are powers of two. -/
def payloadOf (layout : ArrayLayout) (allocation : Nat) : Nat :=
  (allocation + layout.headerSize + (layout.alignment - 1)) / layout.alignment * layout.alignment

/-- `host_array_allocation_preflight`. -/
def preflight (layout : ArrayLayout) (array : HostArray) (capacity : Nat) (maxContainerElements : Option Nat) :
    HostResourceErrorReason :=
  if capacity = 0 then .none
  else if array.storage.isSome ∨ array.size ≠ 0 ∨ array.capacity ≠ 0 then .sizeOverflow
  else if maxContainerElements.any (capacity > ·) then .sizeOverflow
  else if capacity > (sizeMax - layout.headerSize - (layout.alignment - 1)) / layout.elementSize then .sizeOverflow
  else .none

end ArrayLayout

section operations

variable {Element : Type}

/-- `allocate_host_array` without injection; `granted` is what `malloc` returns. -/
def allocateHostArray (layout : ArrayLayout) (heap : HostArrayHeap Element) (array : HostArray) (capacity : Nat)
    (maxContainerElements granted : Option Nat) : (HostArrayHeap Element × HostArray) × HostResourceErrorReason :=
  let preflight := layout.preflight array capacity maxContainerElements
  if preflight ≠ .none ∨ capacity = 0 then ((heap,array),preflight)
  else
    match granted with
    | none => ((heap,array),.allocationUnavailable)
    | some allocation =>
      let obtained := { heap with allocated := heap.allocated ++ [allocation] }
      let payload := layout.payloadOf allocation
      match obtained.register ⟨allocation,payload,capacity * layout.elementSize,0,capacity⟩ with
      | none => (({ obtained with freed := obtained.freed ++ [allocation] },array),.allocationUnavailable)
      | some registered => ((registered,⟨some payload,array.size,capacity⟩),.none)

/-- `host_array_push`. -/
def hostArrayPush (heap : HostArrayHeap Element) (array : HostArray) (value : Element) :
    (HostArrayHeap Element × HostArray) × HostResourceErrorReason :=
  match array.storage with
  | none => ((heap,array),.sizeOverflow)
  | some payload =>
    if array.size ≥ array.capacity then ((heap,array),.sizeOverflow)
    else
      match heap.claim payload array.capacity array.size 1 with
      | none => ((heap,array),.sizeOverflow)
      | some claimed =>
        ((claimed.constructAt payload array.size value,{ array with size := array.size + 1 }),.none)

/-- The loop of `host_array_fill`. -/
def fillElements (payload : Nat) (value : Element) :
    Nat → HostArrayHeap Element × HostArray → HostArrayHeap Element × HostArray
  | 0,state => state
  | count + 1,(heap,array) =>
    fillElements payload value count
      (heap.constructAt payload array.size value,{ array with size := array.size + 1 })

/-- `host_array_fill`. -/
def hostArrayFill (heap : HostArrayHeap Element) (array : HostArray) (count : Nat) (value : Element) :
    (HostArrayHeap Element × HostArray) × HostResourceErrorReason :=
  match array.storage with
  | none =>
    ((heap,array),if count = 0 ∧ array.size = 0 ∧ array.capacity = 0 then .none else .sizeOverflow)
  | some payload =>
    match heap.claim payload array.capacity array.size count with
    | none => ((heap,array),.sizeOverflow)
    | some claimed => (fillElements payload value count (claimed,array),.none)

/-- `--size`, which every caller makes of an array it has just found not empty. -/
def hostArrayPop (array : HostArray) : HostArray :=
  if array.size = 0 then array else { array with size := array.size - 1 }

/-- `reset_host_array`; the end of an array's life releases its storage in the same way. -/
def resetHostArray (heap : HostArrayHeap Element) (array : HostArray) : HostArrayHeap Element × HostArray :=
  (heap.release array.storage,⟨none,0,0⟩)

/-! ### Any number of arrays -/

/-- The arrays of a program, by name, with what they share. -/
structure HostArrays (Element : Type) where
  heap : HostArrayHeap Element
  arrays : Nat → HostArray
  failure : HostFailureInjection

inductive HostArrayOperation (Element : Type) where
  | allocate (capacity : Nat) (maxContainerElements granted : Option Nat)
  | allocateInjected (capacity : Nat) (granted : Option Nat)
  | push (value : Element)
  | fill (count : Nat) (value : Element)
  | pop
  | clear
  | release

namespace HostArrays

def start (failure : HostFailureInjection) : HostArrays Element :=
  ⟨⟨[],fun _ _ => none,[],[],[]⟩,fun _ => ⟨none,0,0⟩,failure⟩

/-- Put back what an operation on one array leaves. -/
def put (state : HostArrays Element) (name : Nat) (left : HostArrayHeap Element × HostArray) : HostArrays Element :=
  { state with heap := left.1, arrays := Function.update state.arrays name left.2 }

def perform (layout : ArrayLayout) (state : HostArrays Element) (name : Nat) :
    HostArrayOperation Element → HostArrays Element × HostResourceErrorReason
  | .allocate capacity maxContainerElements granted =>
    let done := allocateHostArray layout state.heap (state.arrays name) capacity maxContainerElements granted
    (state.put name done.1,done.2)
  | .allocateInjected capacity granted =>
    let preflight := layout.preflight (state.arrays name) capacity state.failure.maxContainerElements
    if preflight ≠ .none ∨ capacity = 0 then (state,preflight)
    else
      let begun := beginHostAllocation state.failure
      let state := { state with failure := begun.1 }
      if begun.2 ≠ .none then (state,begun.2)
      else
        let done := allocateHostArray layout state.heap (state.arrays name) capacity
          state.failure.maxContainerElements granted
        (state.put name done.1,done.2)
  | .push value =>
    let done := hostArrayPush state.heap (state.arrays name) value
    (state.put name done.1,done.2)
  | .fill count value =>
    let done := hostArrayFill state.heap (state.arrays name) count value
    (state.put name done.1,done.2)
  | .pop => (state.put name (state.heap,hostArrayPop (state.arrays name)),.none)
  | .clear | .release => (state.put name (resetHostArray state.heap (state.arrays name)),.none)

def run (layout : ArrayLayout) (operations : List (Nat × HostArrayOperation Element))
    (state : HostArrays Element) : HostArrays Element :=
  operations.foldl (fun state operation => (state.perform layout operation.1 operation.2).1) state

end HostArrays

end operations

/-! ### What every run keeps -/

/-- What holds of the registry whatever arrays there are. -/
structure HostArrayHeap.Sound {Element : Type} (heap : HostArrayHeap Element) : Prop where
  distinct : KeyedList.Distinct HostArrayRecord.payload heap.records
  registered : ∀ payload record, heap.find payload = some record → record.constructed ≤ record.capacity ∧
    ∀ index, (heap.cells payload index).isSome = true ↔ index < record.constructed
  unregistered : ∀ payload, heap.find payload = none → ∀ index, heap.cells payload index = none
  balance : heap.allocated.Perm (heap.freed ++ heap.records.map HostArrayRecord.allocation)

/-- An array and the record of its storage. -/
structure HostArray.Holds {Element : Type} (array : HostArray) (heap : HostArrayHeap Element) : Prop where
  stored : ∀ payload, array.storage = some payload → ∃ record, heap.find payload = some record ∧
    array.capacity = record.capacity ∧ array.size ≤ record.constructed
  empty : array.storage = none → array.size = 0 ∧ array.capacity = 0

/-- No two arrays own one storage. -/
structure HostArrays.Kept {Element : Type} (state : HostArrays Element) : Prop where
  sound : state.heap.Sound
  holds : ∀ name, (state.arrays name).Holds state.heap
  owned : ∀ name other payload, (state.arrays name).storage = some payload →
    (state.arrays other).storage = some payload → name = other

section heaps

variable {Element : Type} {heap claimed : HostArrayHeap Element} {array : HostArray} {record : HostArrayRecord}
  {payload capacity size count : Nat}

/-- What a granted claim changes: the constructed count of one record. -/
structure HostArrayHeap.Claims (heap claimed : HostArrayHeap Element) (payload : Nat) (record : HostArrayRecord)
    (claim : Nat) : Prop where
  found : claimed.find payload = some { record with constructed := max record.constructed claim }
  others : ∀ other, other ≠ payload → claimed.find other = heap.find other
  distinct : KeyedList.Distinct HostArrayRecord.payload claimed.records
  cells : claimed.cells = heap.cells
  destroyed : claimed.destroyed = heap.destroyed
  balance : claimed.allocated.Perm (claimed.freed ++ claimed.records.map HostArrayRecord.allocation)

theorem HostArrayHeap.Sound.claim (sound : heap.Sound)
    (granted : heap.claim payload capacity size count = some claimed) :
    ∃ record, heap.find payload = some record ∧ record.capacity = capacity ∧ size ≤ record.constructed ∧
      size + count ≤ record.capacity ∧ heap.Claims claimed payload record (size + count) := by
  unfold HostArrayHeap.claim at granted
  split at granted
  · cases granted
  rename_i record found
  split at granted
  · cases granted
  rename_i fits
  have same : record.capacity = capacity := by omega
  have inside : size ≤ record.constructed := by omega
  have bound := (sound.registered payload record found).1
  refine ⟨record,found,same,inside,by omega,?_⟩
  dsimp only at granted
  split at granted
  · rename_i more
    cases granted
    have keep : ∀ record : HostArrayRecord, ({ record with constructed := size + count } : HostArrayRecord).payload =
        record.payload := fun _ => rfl
    have looked := @KeyedList.lookup_adjust _ _ _ _ payload heap.records _ keep
    refine ⟨?_,fun other apart => ?_,KeyedList.distinct_adjust keep sound.distinct,rfl,rfl,?_⟩
    · refine (looked payload).trans ?_
      unfold find at found
      rw [if_pos rfl,found,Option.map_some,Nat.max_eq_right (Nat.le_of_lt more)]
    · exact (looked other).trans (if_neg apart)
    · have allocations : (KeyedList.adjust HostArrayRecord.payload payload
          (fun record => { record with constructed := size + count }) heap.records).map HostArrayRecord.allocation =
          heap.records.map HostArrayRecord.allocation := by
        simp only [KeyedList.adjust,List.map_map]
        refine List.map_congr_left fun record _ => ?_
        rw [Function.comp_apply]
        split <;> rfl
      dsimp only
      rw [allocations]
      exact sound.balance
  · rename_i enough
    cases granted
    refine ⟨?_,fun _ _ => rfl,sound.distinct,rfl,rfl,sound.balance⟩
    rw [Nat.max_eq_left (Nat.le_of_not_lt enough)]
    exact found

/-- The elements a fill constructs. -/
theorem fillElements_eq (payload : Nat) (value : Element) (count : Nat) :
    ∀ (heap : HostArrayHeap Element) (array : HostArray), fillElements payload value count (heap,array) =
      ({ heap with
          cells := fun other index =>
            if other = payload ∧ array.size ≤ index ∧ index < array.size + count then some value
            else heap.cells other index },
        { array with size := array.size + count }) := by
  induction count with
  | zero =>
    intro heap array
    have same : (fun other index => if other = payload ∧ array.size ≤ index ∧ index < array.size + 0 then some value
        else heap.cells other index) = heap.cells := by
      funext other index
      exact if_neg (by omega)
    rw [same]
    rfl
  | succ count ih =>
    intro heap array
    rw [fillElements,ih]
    refine Prod.ext ?_ (by simp only [Nat.add_assoc,Nat.add_comm 1])
    simp only [HostArrayHeap.constructAt,HostArrayHeap.mk.injEq,true_and,and_true]
    funext other index
    by_cases here : other = payload
    · subst here
      rw [Function.update_self]
      by_cases first : index = array.size
      · subst first
        simp
      · rw [Function.update_of_ne first]
        have same : (array.size + 1 ≤ index ∧ index < array.size + 1 + count) ↔
            (array.size ≤ index ∧ index < array.size + (count + 1)) := by omega
        simp only [true_and,same]
    · simp only [here,false_and,if_false,Function.update_of_ne here]

/-- Elements constructed in a claim keep the registry sound. -/
theorem HostArrayHeap.Claims.fill (claims : heap.Claims claimed payload record (array.size + count))
    (sound : heap.Sound) (found : heap.find payload = some record) (stored : array.storage = some payload)
    (same : array.capacity = record.capacity) (inside : array.size ≤ record.constructed)
    (fits : array.size + count ≤ record.capacity) (value : Element) :
    (fillElements payload value count (claimed,array)).1.Sound ∧
      (fillElements payload value count (claimed,array)).2.Holds
        (fillElements payload value count (claimed,array)).1 := by
  rw [fillElements_eq]
  obtain ⟨bound,live⟩ := sound.registered payload record found
  refine ⟨⟨claims.distinct,fun other entry looked => ?_,fun other looked index => ?_,claims.balance⟩,
    ⟨fun other owns => ?_,fun empty => ?_⟩⟩
  · change claimed.find other = some entry at looked
    by_cases here : other = payload
    · subst here
      rw [claims.found] at looked
      cases looked
      refine ⟨Nat.max_le.mpr ⟨bound,fits⟩,fun index => ?_⟩
      dsimp only
      rw [claims.cells]
      split
      · simp only [Option.isSome_some,true_iff]
        omega
      · rw [live]
        omega
    · rw [claims.others other here] at looked
      simp only [here,false_and,if_false,claims.cells]
      exact sound.registered other entry looked
  · change claimed.find other = none at looked
    have here : other ≠ payload := by
      rintro rfl
      rw [claims.found] at looked
      cases looked
    rw [claims.others other here] at looked
    simp only [here,false_and,if_false,claims.cells]
    exact sound.unregistered other looked index
  · dsimp only at owns ⊢
    rw [stored] at owns
    cases owns
    exact ⟨_,claims.found,same,Nat.le_max_right _ _⟩
  · dsimp only at empty
    rw [stored] at empty
    cases empty

/-- The elements a release destroys, and their order. -/
theorem destroyElements_eq (payload : Nat) (count : Nat) : ∀ heap : HostArrayHeap Element,
    heap.destroyElements payload count =
      { heap with
        cells := fun other index => if other = payload ∧ index < count then none else heap.cells other index
        destroyed := heap.destroyed ++ (List.range count).reverse.map (payload,·) } := by
  induction count with
  | zero =>
    intro heap
    simp [HostArrayHeap.destroyElements]
  | succ count ih =>
    intro heap
    rw [HostArrayHeap.destroyElements,ih]
    simp only [HostArrayHeap.destroyAt,HostArrayHeap.mk.injEq,true_and,and_true]
    refine ⟨?_,by simp [List.range_succ]⟩
    funext other index
    by_cases here : other = payload
    · subst here
      rw [Function.update_self]
      by_cases last : index = count
      · subst last
        simp
      · rw [Function.update_of_ne last]
        have same : index < count ↔ index < count + 1 := by omega
        simp only [true_and,same]
    · simp only [here,false_and,if_false,Function.update_of_ne here]

/-- What a release leaves of a registered array: nothing, and of the others everything. -/
theorem HostArrayHeap.Sound.release (sound : heap.Sound) (found : heap.find payload = some record) :
    (heap.release (some payload)).Sound ∧ (heap.release (some payload)).find payload = none ∧
      (∀ other, other ≠ payload → (heap.release (some payload)).find other = heap.find other ∧
        (heap.release (some payload)).cells other = heap.cells other) ∧
      (∀ index, (heap.release (some payload)).cells payload index = none) ∧
      (heap.release (some payload)).destroyed =
        heap.destroyed ++ (List.range record.constructed).reverse.map (payload,·) ∧
      (heap.release (some payload)).freed = heap.freed ++ [record.allocation] := by
  obtain ⟨-,live⟩ := sound.registered payload record found
  have dead {index : Nat} (beyond : ¬index < record.constructed) : heap.cells payload index = none := by
    rw [← live] at beyond
    simpa using beyond
  have looked := @KeyedList.lookup_discard _ _ _ HostArrayRecord.payload payload heap.records
  have released : heap.release (some payload) =
      { heap with
        records := KeyedList.discard HostArrayRecord.payload payload heap.records
        cells := fun other index =>
          if other = payload ∧ index < record.constructed then none else heap.cells other index
        destroyed := heap.destroyed ++ (List.range record.constructed).reverse.map (payload,·)
        freed := heap.freed ++ [record.allocation] } := by
    simp only [HostArrayHeap.release,found,destroyElements_eq]
  rw [released]
  have gone : KeyedList.lookup HostArrayRecord.payload payload
      (KeyedList.discard HostArrayRecord.payload payload heap.records) = none := (looked payload).trans (if_pos rfl)
  have kept {other : Nat} (apart : other ≠ payload) : KeyedList.lookup HostArrayRecord.payload other
      (KeyedList.discard HostArrayRecord.payload payload heap.records) = heap.find other :=
    (looked other).trans (if_neg apart)
  have none_left : ∀ index, (if payload = payload ∧ index < record.constructed then none
      else heap.cells payload index) = none := by
    intro index
    split
    · rfl
    · rename_i beyond
      exact dead (by simpa using beyond)
  refine ⟨⟨KeyedList.distinct_discard sound.distinct,fun other entry found => ?_,fun other missing index => ?_,?_⟩,
    gone,fun other apart => ⟨kept apart,?_⟩,none_left,rfl,rfl⟩
  · by_cases here : other = payload
    · subst here
      rw [find,gone] at found
      cases found
    · rw [find,kept here] at found
      simpa [here] using sound.registered other entry found
  · by_cases here : other = payload
    · subst here
      exact none_left index
    · rw [find,kept here] at missing
      simpa [here] using sound.unregistered other missing index
  · have split := (KeyedList.perm_discard sound.distinct found).map HostArrayRecord.allocation
    rw [List.map_cons] at split
    dsimp only
    rw [List.append_assoc]
    exact sound.balance.trans (split.append_left heap.freed)
  · funext index
    simp [apart]

/-- A payload that no record has may be registered. -/
theorem HostArrayHeap.Sound.register (sound : heap.Sound) (fresh : heap.find record.payload = none)
    (none_yet : record.constructed = 0) (allocated : List Nat)
    (balance : allocated.Perm (heap.freed ++ record.allocation :: heap.records.map HostArrayRecord.allocation)) :
    ({ heap with allocated, records := record :: heap.records } : HostArrayHeap Element).Sound := by
  have looked {other : Nat} (apart : other ≠ record.payload) :
      KeyedList.lookup HostArrayRecord.payload other (record :: heap.records) = heap.find other :=
    List.find?_cons_of_neg (by simpa using Ne.symm apart)
  have first : KeyedList.lookup HostArrayRecord.payload record.payload (record :: heap.records) = some record :=
    List.find?_cons_of_pos (by simp)
  refine ⟨?_,fun other entry found => ?_,fun other missing index => ?_,balance⟩
  · refine List.nodup_cons.mpr ⟨fun member => ?_,sound.distinct⟩
    obtain ⟨other,member,same⟩ := List.mem_map.mp member
    exact KeyedList.lookup_none fresh other member same
  · by_cases here : other = record.payload
    · subst here
      rw [find,first] at found
      cases found
      refine ⟨by omega,fun index => ?_⟩
      simp [sound.unregistered _ fresh,none_yet]
    · rw [find,looked here] at found
      exact sound.registered other entry found
  · have here : other ≠ record.payload := by
      rintro rfl
      rw [find,first] at missing
      cases missing
    rw [find,looked here] at missing
    exact sound.unregistered other missing index

/-- What one operation on an array may do to the registry and to that array. -/
structure HostArray.Leaves (heap : HostArrayHeap Element) (array : HostArray)
    (left : HostArrayHeap Element × HostArray) : Prop where
  sound : left.1.Sound
  holds : left.2.Holds left.1
  frame : ∀ payload record, heap.find payload = some record → array.storage ≠ some payload →
    left.1.find payload = some record
  owned : ∀ payload, left.2.storage = some payload → array.storage = some payload ∨ heap.find payload = none

theorem HostArray.Holds.leaves (holds : array.Holds heap) (sound : heap.Sound) : array.Leaves heap (heap,array) :=
  ⟨sound,holds,fun _ _ found _ => found,fun _ => .inl⟩

theorem preflight_none {layout : ArrayLayout} {maxContainerElements : Option Nat}
    (passes : layout.preflight array capacity maxContainerElements = .none) (some_elements : capacity ≠ 0) :
    array.storage = none ∧ array.size = 0 := by
  unfold ArrayLayout.preflight at passes
  rw [if_neg some_elements] at passes
  split at passes
  · cases passes
  · rename_i empty
    obtain ⟨storage,rest⟩ := not_or.mp empty
    exact ⟨by simpa using storage,not_not.mp (not_or.mp rest).1⟩

theorem allocateHostArray_leaves (layout : ArrayLayout) (maxContainerElements granted : Option Nat)
    (capacity : Nat) (sound : heap.Sound) (holds : array.Holds heap) :
    array.Leaves heap (allocateHostArray layout heap array capacity maxContainerElements granted).1 := by
  unfold allocateHostArray
  dsimp only
  split
  · exact holds.leaves sound
  rename_i passes
  obtain ⟨passes,some_elements⟩ := not_or.mp passes
  obtain ⟨empty,unused⟩ := preflight_none (not_not.mp passes) some_elements
  split
  · exact holds.leaves sound
  rename_i allocation
  unfold HostArrayHeap.register
  by_cases known : (heap.find (layout.payloadOf allocation)).isSome = true
  · -- the registry has the payload already: the block is freed again
    have balance : (heap.allocated ++ [allocation]).Perm
        (heap.freed ++ [allocation] ++ heap.records.map HostArrayRecord.allocation) := by
      rw [List.append_assoc]
      exact (sound.balance.append_right [allocation]).trans
        ((List.append_assoc ..).symm ▸ (List.perm_append_comm.append_left heap.freed))
    have refused : ({ heap with allocated := heap.allocated ++ [allocation] } : HostArrayHeap Element).find
        (layout.payloadOf allocation) = heap.find (layout.payloadOf allocation) := rfl
    rw [refused,if_pos known]
    exact ⟨⟨sound.distinct,sound.registered,sound.unregistered,balance⟩,⟨holds.stored,holds.empty⟩,
      fun _ _ found _ => found,fun _ => .inl⟩
  · have fresh : heap.find (layout.payloadOf allocation) = none := by simpa using known
    have granted : ({ heap with allocated := heap.allocated ++ [allocation] } : HostArrayHeap Element).find
        (layout.payloadOf allocation) = heap.find (layout.payloadOf allocation) := rfl
    rw [granted,if_neg known]
    dsimp only
    have balance : (heap.allocated ++ [allocation]).Perm
        (heap.freed ++ allocation :: heap.records.map HostArrayRecord.allocation) :=
      (sound.balance.append_right [allocation]).trans
        ((List.append_assoc ..).symm ▸ (List.perm_append_comm.append_left heap.freed))
    have looked {other : Nat} (apart : other ≠ layout.payloadOf allocation) :
        KeyedList.lookup HostArrayRecord.payload other
            (⟨allocation,layout.payloadOf allocation,capacity * layout.elementSize,0,capacity⟩ :: heap.records) =
          heap.find other :=
      List.find?_cons_of_neg (by simpa using Ne.symm apart)
    have first : KeyedList.lookup HostArrayRecord.payload (layout.payloadOf allocation)
        (⟨allocation,layout.payloadOf allocation,capacity * layout.elementSize,0,capacity⟩ :: heap.records) =
          some ⟨allocation,layout.payloadOf allocation,capacity * layout.elementSize,0,capacity⟩ :=
      List.find?_cons_of_pos (by simp)
    refine ⟨sound.register fresh rfl _ balance,⟨fun payload stored => ?_,nofun⟩,fun other record found _ => ?_,
      fun payload stored => .inr ?_⟩
    · cases stored
      exact ⟨_,first,rfl,Nat.le_of_eq unused⟩
    · refine (looked ?_).trans found
      rintro rfl
      rw [fresh] at found
      cases found
    · cases stored
      exact fresh

theorem HostArrayHeap.Claims.leaves (claims : heap.Claims claimed payload record (array.size + count))
    (sound : heap.Sound) (found : heap.find payload = some record) (stored : array.storage = some payload)
    (same : array.capacity = record.capacity) (inside : array.size ≤ record.constructed)
    (fits : array.size + count ≤ record.capacity) (value : Element) :
    array.Leaves heap (fillElements payload value count (claimed,array)) := by
  obtain ⟨filled,holds⟩ := claims.fill sound found stored same inside fits value
  rw [fillElements_eq] at filled holds ⊢
  refine ⟨filled,holds,fun other entry looked apart => ?_,fun _ owns => .inl owns⟩
  have here : other ≠ payload := fun same => apart (same ▸ stored)
  exact (claims.others other here).trans looked

theorem hostArrayFill_leaves (sound : heap.Sound) (holds : array.Holds heap) (count : Nat) (value : Element) :
    array.Leaves heap (hostArrayFill heap array count value).1 ∧
      ((hostArrayFill heap array count value).2 ≠ .none → (hostArrayFill heap array count value).1 = (heap,array)) := by
  unfold hostArrayFill
  split
  · exact ⟨holds.leaves sound,fun _ => rfl⟩
  rename_i payload stored
  cases granted : heap.claim payload array.capacity array.size count with
  | none => exact ⟨holds.leaves sound,fun _ => rfl⟩
  | some claimed =>
    obtain ⟨record,found,same,inside,fits,claims⟩ := sound.claim granted
    exact ⟨claims.leaves sound found stored same.symm inside fits value,fun refused => absurd rfl refused⟩

/-- A push is a fill with one element, once it has found room for it. -/
theorem hostArrayPush_leaves (sound : heap.Sound) (holds : array.Holds heap) (value : Element) :
    array.Leaves heap (hostArrayPush heap array value).1 ∧
      ((hostArrayPush heap array value).2 ≠ .none → (hostArrayPush heap array value).1 = (heap,array)) := by
  unfold hostArrayPush
  split
  · exact ⟨holds.leaves sound,fun _ => rfl⟩
  rename_i payload stored
  split
  · exact ⟨holds.leaves sound,fun _ => rfl⟩
  cases granted : heap.claim payload array.capacity array.size 1 with
  | none => exact ⟨holds.leaves sound,fun _ => rfl⟩
  | some claimed =>
    obtain ⟨record,found,same,inside,fits,claims⟩ := sound.claim granted
    exact ⟨claims.leaves sound found stored same.symm inside fits value,fun refused => absurd rfl refused⟩

theorem hostArrayPop_leaves (sound : heap.Sound) (holds : array.Holds heap) :
    array.Leaves heap (heap,hostArrayPop array) := by
  unfold hostArrayPop
  split
  · exact holds.leaves sound
  · refine ⟨sound,⟨fun payload stored => ?_,fun empty => ?_⟩,fun _ _ found _ => found,fun _ => .inl⟩
    · obtain ⟨record,found,same,inside⟩ := holds.stored payload stored
      exact ⟨record,found,same,Nat.le_trans (Nat.sub_le ..) inside⟩
    · obtain ⟨size,capacity⟩ := holds.empty empty
      exact ⟨by dsimp only; omega,capacity⟩

theorem resetHostArray_leaves (sound : heap.Sound) (holds : array.Holds heap) :
    array.Leaves heap (resetHostArray heap array) := by
  unfold resetHostArray
  cases stored : array.storage with
  | none => exact ⟨sound,⟨nofun,fun _ => ⟨rfl,rfl⟩⟩,fun _ _ found _ => found,nofun⟩
  | some payload =>
    obtain ⟨record,found,-,-⟩ := holds.stored payload stored
    obtain ⟨kept,-,others,-⟩ := sound.release found
    refine ⟨kept,⟨nofun,fun _ => ⟨rfl,rfl⟩⟩,fun other entry looked apart => ?_,nofun⟩
    have here : other ≠ payload := fun same => apart (same ▸ stored)
    exact (others other here).1.trans looked

end heaps

/-! ### Runs -/

section runs

variable {Element : Type} {state : HostArrays Element}

namespace HostArrays

theorem Kept.put (kept : state.Kept) (name : Nat) {left : HostArrayHeap Element × HostArray}
    (leaves : (state.arrays name).Leaves state.heap left) : (state.put name left).Kept := by
  have named : (state.put name left).arrays name = left.2 := Function.update_self ..
  have others {other : Nat} (apart : other ≠ name) : (state.put name left).arrays other = state.arrays other :=
    Function.update_of_ne apart ..
  have alone {other payload : Nat} (apart : other ≠ name) (stored : (state.arrays other).storage = some payload) :
      (state.arrays name).storage ≠ some payload := fun owns => apart (kept.owned other name payload stored owns)
  -- what another array owns is registered, so this one has not taken it
  have taken {other payload : Nat} (apart : other ≠ name) (stored : (state.arrays other).storage = some payload) :
      left.2.storage ≠ some payload := by
    intro owns
    rcases leaves.owned payload owns with before | fresh
    · exact alone apart stored before
    · obtain ⟨record,found,-⟩ := (kept.holds other).stored payload stored
      rw [fresh] at found
      cases found
  refine ⟨leaves.sound,fun other => ?_,fun first second payload owns same => ?_⟩
  · by_cases apart : other = name
    · rw [apart,named]
      exact leaves.holds
    · rw [others apart]
      refine ⟨fun payload stored => ?_,(kept.holds other).empty⟩
      obtain ⟨record,found,capacity,inside⟩ := (kept.holds other).stored payload stored
      exact ⟨record,leaves.frame payload record found (alone apart stored),capacity,inside⟩
  · by_cases one : first = name
    · by_cases two : second = name
      · exact one.trans two.symm
      · rw [one,named] at owns
        rw [others two] at same
        exact absurd owns (taken two same)
    · rw [others one] at owns
      by_cases two : second = name
      · rw [two,named] at same
        exact absurd same (taken one owns)
      · rw [others two] at same
        exact kept.owned first second payload owns same

theorem start_kept (failure : HostFailureInjection) : (start failure : HostArrays Element).Kept :=
  ⟨⟨List.nodup_nil,nofun,fun _ _ _ => rfl,.nil⟩,fun _ => ⟨nofun,fun _ => ⟨rfl,rfl⟩⟩,nofun⟩

theorem perform_kept (layout : ArrayLayout) (kept : state.Kept) (name : Nat)
    (operation : HostArrayOperation Element) : (state.perform layout name operation).1.Kept := by
  have sound := kept.sound
  have holds := kept.holds name
  cases operation with
  | allocate capacity maxContainerElements granted =>
    exact kept.put name (allocateHostArray_leaves layout maxContainerElements granted capacity sound holds)
  | allocateInjected capacity granted =>
    unfold perform
    dsimp only
    split
    · exact kept
    have begun : ({ state with failure := (beginHostAllocation state.failure).1 } : HostArrays Element).Kept :=
      ⟨sound,kept.holds,kept.owned⟩
    split
    · exact begun
    · exact begun.put name (allocateHostArray_leaves layout _ granted capacity sound holds)
  | push value => exact kept.put name (hostArrayPush_leaves sound holds value).1
  | fill count value => exact kept.put name (hostArrayFill_leaves sound holds count value).1
  | pop => exact kept.put name (hostArrayPop_leaves sound holds)
  | clear => exact kept.put name (resetHostArray_leaves sound holds)
  | release => exact kept.put name (resetHostArray_leaves sound holds)

theorem run_kept (layout : ArrayLayout) (operations : List (Nat × HostArrayOperation Element)) :
    ∀ state : HostArrays Element, state.Kept → (run layout operations state).Kept := by
  induction operations with
  | nil => exact fun _ kept => kept
  | cons operation operations ih => exact fun _ kept => ih _ (perform_kept layout kept operation.1 operation.2)

theorem put_same (state : HostArrays Element) (name : Nat) :
    state.put name (state.heap,state.arrays name) = state := by
  unfold put
  rw [Function.update_eq_self]

end HostArrays

/-- After any operations on any arrays: the size of an array is at most the number of its
constructed elements and this at most its capacity, a refused push or fill changes nothing,
and a release destroys each constructed element once, from the last to the first, and frees
the storage once. Whatever was allocated has been freed once or is registered. -/
theorem host_arrays_within_bounds (layout : ArrayLayout) (failure : HostFailureInjection)
    (operations : List (Nat × HostArrayOperation Element)) (name : Nat) :
    let state := HostArrays.run layout operations (HostArrays.start failure)
    let array := state.arrays name
    (∀ payload, array.storage = some payload → ∃ record, state.heap.find payload = some record ∧
      array.size ≤ record.constructed ∧ record.constructed ≤ record.capacity ∧ array.capacity = record.capacity ∧
      (∀ index, (state.heap.cells payload index).isSome = true ↔ index < record.constructed) ∧
      let released := state.heap.release array.storage
      released.destroyed = state.heap.destroyed ++ (List.range record.constructed).reverse.map (payload,·) ∧
      released.freed = state.heap.freed ++ [record.allocation] ∧ released.find payload = none ∧
      (∀ index, released.cells payload index = none) ∧
      ∀ other, other ≠ payload → released.find other = state.heap.find other ∧
        released.cells other = state.heap.cells other) ∧
    (array.storage = none → array.size = 0 ∧ array.capacity = 0 ∧ state.heap.release array.storage = state.heap) ∧
    (∀ value, (state.perform layout name (.push value)).2 ≠ .none →
      (state.perform layout name (.push value)).1 = state) ∧
    (∀ count value, (state.perform layout name (.fill count value)).2 ≠ .none →
      (state.perform layout name (.fill count value)).1 = state) ∧
    state.heap.allocated.Perm (state.heap.freed ++ state.heap.records.map HostArrayRecord.allocation) := by
  intro state array
  have kept : state.Kept := HostArrays.run_kept layout operations _ (HostArrays.start_kept failure)
  have sound := kept.sound
  have holds := kept.holds name
  refine ⟨fun payload stored => ?_,fun empty => ?_,fun value refused => ?_,fun count value refused => ?_,
    sound.balance⟩
  · obtain ⟨record,found,capacity,inside⟩ := holds.stored payload stored
    obtain ⟨bound,live⟩ := sound.registered payload record found
    obtain ⟨-,gone,others,dead,destroyed,freed⟩ := sound.release found
    rw [stored]
    exact ⟨record,found,inside,bound,capacity,live,destroyed,freed,gone,dead,others⟩
  · obtain ⟨size,capacity⟩ := holds.empty empty
    rw [empty]
    exact ⟨size,capacity,rfl⟩
  · have same := (hostArrayPush_leaves sound holds value).2 refused
    exact (congrArg (state.put name) same).trans (state.put_same name)
  · have same := (hostArrayFill_leaves sound holds count value).2 refused
    exact (congrArg (state.put name) same).trans (state.put_same name)

end runs

end Bennu
