import Bennu.TupleAbandonment
import Bennu.TupleExecution

/-! `execute_tuple_construction` as a whole: the tuple of all elements in order, or the error
of the first step that failed, with everything completed before it destroyed once. -/
namespace Bennu

/-- The buffers of all records of a value. -/
def Value.buffers (v : Value) : List Nat := v.holdings.filterMap (·.storage)

/-- A value that holds nothing. -/
def Value.Blank (v : Value) : Prop := v.vector = emptyVector ∧ v.tuple = emptyTuple

/-- A step of a callback whose charges are all held by the value it returns: every other
record is left alone, and an unclaimed value holds nothing. -/
structure Held (initial : Baseline) (h g : Host) (v : Value) : Prop where
  balanced : g.Balanced initial
  tidy : v.Tidy fun _ => True
  backed : ∀ x ∈ v.holdings, x.Backed g
  apart : v.buffers.Nodup
  fresh : ∀ q ∈ v.buffers, h.findRecord q = none
  others : ∀ q, q ∉ v.buffers → g.findRecord q = h.findRecord q
  blank : v.claimed = false → v.Blank

/-- The host while a construction runs: the completed elements and what is kept besides are
accounted for, all fresh since the start, and every other record is as it was. -/
structure Standing (initial : Baseline) (rest : List Holding) (start g : Host) (done kept : List Value) :
    Prop where
  accounted : Accounted initial g (done.flatMap Value.holdings ++ (kept.flatMap Value.holdings ++ rest))
  tidy : ∀ v ∈ done, v.Tidy fun _ => True
  valid : ∀ v ∈ done, Valid g v
  fresh : ∀ q ∈ done.flatMap Value.storages ++ kept.flatMap Value.buffers, start.findRecord q = none
  others : ∀ q, q ∉ done.flatMap Value.storages ++ kept.flatMap Value.buffers →
    g.findRecord q = start.findRecord q

section Steps

variable {initial : Baseline} {rest : List Holding} {start g g' : Host} {done kept : List Value} {v : Value}

theorem Value.Blank.dropValue (blank : v.Blank) (h : Host) : h.dropValue v = h := by
  obtain ⟨vector,tuple⟩ := blank
  rw [Host.dropValue,vector,tuple]
  rfl

theorem Value.Blank.buffers (blank : v.Blank) : v.buffers = [] := by
  obtain ⟨vector,tuple⟩ := blank
  rw [Value.buffers,Value.holdings,vector,tuple]
  rfl

theorem Value.Exact.buffers {h : Host} (exact : v.Exact h) : v.buffers = v.storages := exact.holdings_storages

theorem Standing.sameRegistries (standing : Standing initial rest start g done kept)
    (same : g.SameRegistries g') : Standing initial rest start g' done kept := by
  have registry : ∀ q, g'.findRecord q = g.findRecord q := by
    obtain ⟨_,rfl⟩ := same
    exact fun _ => rfl
  exact ⟨standing.accounted.sameRegistries same,standing.tidy,
    fun v member => (standing.valid v member).sameRegistries same,standing.fresh,
    fun q other => (registry q).trans (standing.others q other)⟩

/-- What is accounted for has a record. -/
theorem Accounted.recorded {h : Host} {xs : List Holding} (accounted : Accounted initial h xs) {q : Nat}
    (member : q ∈ xs.filterMap (·.storage)) : ∃ record, h.findRecord q = some record := by
  obtain ⟨x,inside,storage⟩ := List.mem_filterMap.mp member
  exact (accounted.backed x inside).storage_record storage

/-- What a step holds is new beside all that is accounted for already. -/
theorem Accounted.held {h : Host} {xs : List Holding} (accounted : Accounted initial h xs)
    (held : Held initial h g v) : Accounted initial g (v.holdings ++ xs) := by
  have other : ∀ q ∈ xs.filterMap (·.storage), q ∉ v.buffers := by
    intro q member new
    obtain ⟨record,found⟩ := accounted.recorded member
    rw [held.fresh q new] at found
    cases found
  refine ⟨held.balanced,?_,fun x member => ?_⟩
  · rw [List.filterMap_append,List.nodup_append]
    exact ⟨held.apart,accounted.separate,fun p new q old same => other q old (same ▸ new)⟩
  · rcases List.mem_append.mp member with new | old
    · exact held.backed x new
    · refine (accounted.backed x old).congr fun p storage => held.others p (other p ?_)
      exact List.mem_filterMap.mpr ⟨x,old,storage⟩

/-- One step of the callback. -/
theorem Standing.execute (standing : Standing initial rest start g done []) (held : Held initial g g' v) :
    Standing initial rest start g' done [v] := by
  have storages : ∀ w ∈ done, ∀ q ∈ w.storages, q ∉ v.buffers := by
    intro w member q own new
    have found := ((invalidity_none_iff g w).mp (standing.valid w member)).storage_registered own
    rw [held.fresh q new] at found
    cases found
  have known : ∀ q ∈ v.buffers, q ∉ done.flatMap Value.storages := by
    intro q new old
    obtain ⟨w,member,own⟩ := List.mem_flatMap.mp old
    exact storages w member q own new
  have fresh := standing.fresh
  have others := standing.others
  simp only [List.flatMap_nil,List.append_nil] at fresh others
  refine ⟨(standing.accounted.held held).perm ?_,standing.tidy,fun w member => ?_,?_,?_⟩
  · simp only [List.flatMap_nil,List.nil_append,List.flatMap_singleton]
    exact List.perm_append_comm_assoc ..
  · exact (standing.valid w member).untouched held.balanced fun q own =>
      held.others q (storages w member q own)
  · intro q member
    rw [List.flatMap_singleton] at member
    rcases List.mem_append.mp member with old | new
    · exact fresh q old
    · rw [← others q (known q new)]
      exact held.fresh q new
  · intro q other
    rw [List.flatMap_singleton,List.mem_append,not_or] at other
    rw [held.others q other.2,others q other.1]

/-- An accepted value is completed. -/
theorem Standing.accept (standing : Standing initial rest start g done [v]) (valid : Valid g v)
    (tidy : v.Tidy fun _ => True) : Standing initial rest start g (done ++ [v]) [] := by
  have same : v.buffers = v.storages := ((invalidity_none_iff g v).mp valid).buffers
  obtain ⟨accounted,allTidy,allValid,fresh,others⟩ := standing
  simp only [List.flatMap_singleton,same] at accounted fresh others
  refine ⟨?_,fun w member => ?_,fun w member => ?_,?_,?_⟩
  · simpa using accounted
  · rcases List.mem_append.mp member with old | new
    · exact allTidy w old
    · rwa [List.mem_singleton.mp new]
  · rcases List.mem_append.mp member with old | new
    · exact allValid w old
    · rwa [List.mem_singleton.mp new]
  · simpa using fresh
  · simpa using others

/-- A kept value that holds nothing need not be kept. -/
theorem Standing.blank (standing : Standing initial rest start g done [v]) (blank : v.Blank) :
    Standing initial rest start g done [] := by
  obtain ⟨accounted,allTidy,allValid,fresh,others⟩ := standing
  simp only [List.flatMap_singleton,blank.buffers] at accounted fresh others
  refine ⟨?_,allTidy,allValid,by simpa using fresh,by simpa using others⟩
  have moved : (done.flatMap Value.holdings ++ (v.holdings ++ rest)).Perm
      (v.holdings ++ (done.flatMap Value.holdings ++ rest)) := List.perm_append_comm_assoc ..
  exact (accounted.perm moved).behind

end Steps

section Loop

variable {σ ε : Type} {initial : Baseline} {rest : List Holding} {profile : Account} {total : Nat}
  {r : EvaluationResources} {execute : TupleElementExecutor σ ε} {c : σ} {f : HostFailureInjection}
  {h : Host}

end Loop

namespace ResourceSession

/-- What an operation leaves of a value: the value itself, nothing, or a claimed value. -/
def Leaves (v left : Value) : Prop := left = v ∨ left.Blank ∨ left.claimed = true

section Emptied

variable {h : Host} {r : EvaluationResources} {f : HostFailureInjection} {v : Value}

end Emptied

/-- Every unclaimed value holds nothing. -/
def Emptied (values : List Value) : Prop := ∀ v ∈ values, v.claimed = false → v.Blank

theorem Emptied.set {values : List Value} (emptied : Emptied values) {index : Nat} {v left : Value}
    (found : values[index]? = some v) (leaves : Leaves v left) : Emptied (values.set index left) := by
  intro w member unclaimed
  rcases List.mem_or_eq_of_mem_set member with old | rfl
  · exact emptied w old unclaimed
  · rcases leaves with rfl | blank | claimed
    · exact emptied w (List.mem_of_getElem? found) unclaimed
    · exact blank
    · rw [claimed] at unclaimed
      cases unclaimed

end ResourceSession

section Scratch

variable {σ ε : Type} {initial : Baseline} {profile : Account} {total : Nat}

end Scratch

section Outcome

variable {live : Nat → Nat} {s : ResourceSession} {scratch kept : List Value} {next : Host}

theorem Value.Blank.charged {v : Value} (blank : v.Blank) (owner : Nat) : chargedTo owner v.holdings = 0 := by
  obtain ⟨vector,tuple⟩ := blank
  rw [Value.holdings,vector,tuple]
  simp [chargedTo,TupleValue.holdings,emptyTuple,VectorValue.holding,TupleTableReservation.holding,
    emptyVector,emptyVectorOf,emptyReservation]

/-- The host when the composition of the completed elements is refused. -/
theorem Standing.refused {initial : Baseline} {rest : List Holding} {start g denied : Host} {r : EvaluationResources}
    {done left : List Value} {f used : HostFailureInjection} {failure : TupleFailure}
    (standing : Standing initial rest start g done [])
    (ended : makeTupleValue f g r done = (used,denied,left,.error failure)) :
    left = done ∧ Standing initial rest start denied done [] := by
  have made := makeTupleValue_accounted (r := r) f standing.accounted standing.tidy
  rw [ended] at made
  obtain ⟨same,accounted⟩ := made
  have only := ((makeTupleValue_composes standing.accounted.balanced f done ended).2 failure rfl).2
  have records : ∀ q, denied.findRecord q = g.findRecord q := fun q => by
    rw [Host.findRecord,Host.findRecord,only.buffers]
  exact ⟨same,accounted,standing.tidy,fun v member =>
    (standing.valid v member).untouched accounted.balanced fun q _ => records q,standing.fresh,
    fun q other => (records q).trans (standing.others q other)⟩

end Outcome

end Bennu
