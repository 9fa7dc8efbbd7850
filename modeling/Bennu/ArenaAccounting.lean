import Mathlib.Data.List.GetD
import Bennu.Accounting

/-! Whole values under the accounting invariant: the walks over a tuple arena,
and the release, detachment, destruction and dropping of a value. -/
namespace Bennu

/-- Only the active element type has storage, and an owned payload is charged
for exactly its elements. -/
structure VectorValue.Tidy (v : VectorValue) : Prop where
  booleans : v.elementType ≠ .boolean → v.booleans = none
  integers : v.elementType ≠ .integer → v.integers = none
  doubles : v.elementType ≠ .doublePrecision → v.doubles = none
  charged : v.accountingOwner ≠ 0 → v.canonicalBytes = v.activeLength * elementWidth v.elementType

def TupleValue.holdings (t : TupleValue) : List Holding :=
  t.vectorPayloads.map (·.holding) ++ (t.reservations.map (·.holding) ++ [t.rootReservation.holding])

/-- Every record of a value, whatever its container. -/
def Value.holdings (v : Value) : List Holding := v.vector.holding :: v.tuple.holdings

structure TupleValue.Tidy (owned : Nat → Prop) (t : TupleValue) : Prop where
  payloads : ∀ v ∈ t.vectorPayloads, v.Tidy ∧ owned v.accountingOwner
  reservations : ∀ r ∈ t.reservations, owned r.accountingOwner
  root : owned t.rootReservation.accountingOwner

structure Value.Tidy (owned : Nat → Prop) (v : Value) : Prop where
  vector : v.vector.Tidy
  vectorOwner : owned v.vector.accountingOwner
  tuple : v.tuple.Tidy owned

theorem emptyVectorOf_tidy (type : ScalarType) : (emptyVectorOf type).Tidy :=
  ⟨fun _ => rfl,fun _ => rfl,fun _ => rfl,fun owner => absurd rfl owner⟩

theorem VectorValue.Tidy.detached {v : VectorValue} (tidy : v.Tidy) : v.detached.Tidy :=
  ⟨tidy.booleans,tidy.integers,tidy.doubles,fun owner => absurd rfl owner⟩

theorem VectorValue.released_storage (v : VectorValue) : v.released.storage = none := by
  rcases v with ⟨type,booleans,_,integers,_,doubles,_,_,_,_,_⟩
  cases type
  · cases booleans <;> rfl
  · cases integers <;> rfl
  · cases doubles <;> rfl

theorem VectorValue.Tidy.released {v : VectorValue} (tidy : v.Tidy) : v.released.Tidy := by
  rcases v with ⟨type,booleans,_,integers,_,doubles,_,_,_,_,_⟩
  have b := tidy.booleans
  have i := tidy.integers
  have d := tidy.doubles
  cases type
  · cases booleans <;> exact ⟨fun other => absurd rfl other,i,d,fun owner => absurd rfl owner⟩
  · cases integers <;> exact ⟨b,fun other => absurd rfl other,d,fun owner => absurd rfl owner⟩
  · cases doubles <;> exact ⟨b,i,fun other => absurd rfl other,fun owner => absurd rfl owner⟩

/-- What one record of a walk may do to the registries. -/
structure WalkVisitor.Accounts (visitor : WalkVisitor) (owned : Nat → Prop) : Prop where
  payload : ∀ {initial h v rest next v'}, Accounted initial h (VectorValue.holding v :: rest) →
    v.Tidy → owned v.accountingOwner → visitor.payload h v = some (next,v') →
    Accounted initial next (v'.holding :: rest) ∧ v'.Tidy ∧ owned v'.accountingOwner
  table : ∀ {initial h r rest next r'}, Accounted initial h (TupleTableReservation.holding r :: rest) →
    owned r.accountingOwner → visitor.table h r = some (next,r') →
    Accounted initial next (r'.holding :: rest) ∧ owned r'.accountingOwner

/-- The owners that a release through a context may meet. -/
def ownedBy (r : EvaluationResources) (owner : Nat) : Prop := owner = 0 ∨ owner = r.owner

theorem destroyVisitor_accounts : destroyVisitor.Accounts fun _ => True where
  payload := by
    rintro initial h v rest next v' accounted tidy - ⟨⟩
    exact ⟨(Accounted.cons_empty rfl v.released_storage).mpr accounted.releaseProven,tidy.released,trivial⟩
  table := by
    rintro initial h r rest next r' accounted - ⟨⟩
    exact ⟨(Accounted.cons_empty rfl rfl).mpr accounted.releaseProven,trivial⟩

theorem releaseVisitor_accounts (r : EvaluationResources) :
    (releaseVisitor r).Accounts (ownedBy r) where
  payload := by
    intro initial h v rest next v' accounted tidy owned ok
    simp only [releaseVisitor] at ok
    split at ok
    · obtain ⟨mid,checked,equal⟩ := Option.map_eq_some_iff.mp ok
      cases equal
      have ended := accounted.releaseChecked (z := { v.holding with owner := 0 })
        (fun owner => ⟨owned.resolve_left owner,(tidy.charged owner).symm⟩) checked rfl rfl
      exact ⟨(Accounted.cons_empty rfl v.released_storage).mpr ended.free,tidy.released,.inl rfl⟩
    · cases ok
      exact ⟨accounted,tidy,owned⟩
  table := by
    intro initial h t rest next t' accounted owned ok
    obtain ⟨mid,checked,equal⟩ := Option.map_eq_some_iff.mp ok
    cases equal
    have ended := accounted.releaseChecked (z := { t.holding with owner := 0 })
      (fun owner => ⟨owned.resolve_left owner,rfl⟩) checked rfl rfl
    exact ⟨(Accounted.cons_empty rfl rfl).mpr ended.free,.inl rfl⟩

theorem detachVisitor_accounts (r : EvaluationResources) :
    (detachVisitor r).Accounts (ownedBy r) where
  payload := by
    intro initial h v rest next v' accounted tidy owned ok
    obtain ⟨mid,checked,equal⟩ := Option.map_eq_some_iff.mp ok
    cases equal
    exact ⟨accounted.releaseChecked (fun owner => ⟨owned.resolve_left owner,rfl⟩) checked rfl rfl,
      tidy.detached,.inl rfl⟩
  table := by
    intro initial h t rest next t' accounted owned ok
    obtain ⟨mid,checked,equal⟩ := Option.map_eq_some_iff.mp ok
    cases equal
    exact ⟨accounted.releaseChecked (fun owner => ⟨owned.resolve_left owner,rfl⟩) checked rfl rfl,
      .inl rfl⟩

theorem set_perm {α : Type} {l : List α} {k : Nat} (bound : k < l.length) (x : α) :
    (l.set k x).Perm (x :: l.eraseIdx k) := by
  have inside : k < (l.set k x).length := by simpa using bound
  simpa [List.eraseIdx_set_eq] using (List.getElem_cons_eraseIdx_perm inside).symm

namespace TupleValue

@[simp] theorem setParent_holdings (t : TupleValue) (child parent : Nat) :
    (t.setParent child parent).holdings = t.holdings := rfl

/-- The walks only touch records through `set`; linking leaves them all alone. -/
theorem linkChildren_records (t : TupleValue) (parent first count : Nat) :
    ((t.linkChildren parent first count).vectorPayloads,
      (t.linkChildren parent first count).reservations,
      (t.linkChildren parent first count).rootReservation) =
    (t.vectorPayloads,t.reservations,t.rootReservation) := by
  unfold linkChildren
  generalize List.range count = offsets
  induction offsets generalizing t with
  | nil => rfl
  | cons offset rest ih => exact (ih (t.setParent (t.childAt (first + offset)) parent)).trans rfl

theorem linkParents_records (t : TupleValue) :
    (t.linkParents.vectorPayloads,t.linkParents.reservations,t.linkParents.rootReservation) =
    (t.vectorPayloads,t.reservations,t.rootReservation) := by
  unfold linkParents
  generalize List.range t.nodes.length = indexes
  dsimp only
  refine (linkChildren_records _ _ _ _).trans ?_
  induction indexes generalizing t with
  | nil => rfl
  | cons index rest ih =>
    refine (ih _).trans ?_
    dsimp only
    split
    · exact linkChildren_records _ _ _ _
    · rfl

theorem holdings_congr {t t' : TupleValue}
    (same : (t'.vectorPayloads,t'.reservations,t'.rootReservation) =
      (t.vectorPayloads,t.reservations,t.rootReservation)) : t'.holdings = t.holdings := by
  simp only [Prod.mk.injEq] at same
  simp [holdings,same]

theorem tidy_congr {t t' : TupleValue} {owned : Nat → Prop} (tidy : t.Tidy owned)
    (same : (t'.vectorPayloads,t'.reservations,t'.rootReservation) =
      (t.vectorPayloads,t.reservations,t.rootReservation)) : t'.Tidy owned := by
  simp only [Prod.mk.injEq] at same
  obtain ⟨payloads,reservations,root⟩ := same
  exact ⟨payloads ▸ tidy.payloads,reservations ▸ tidy.reservations,root ▸ tidy.root⟩

end TupleValue

section Walk

variable {visitor : WalkVisitor} {owned : Nat → Prop} {initial : Baseline} {rest : List Holding}

/-- The invariant of a walk: the arena's records are accounted beside all others. -/
structure WalkState.Accounted (owned : Nat → Prop) (initial : Baseline) (rest : List Holding)
    (s : WalkState) : Prop where
  accounted : Bennu.Accounted initial s.host (s.tuple.holdings ++ rest)
  tidy : s.tuple.Tidy owned

/-- Visiting one payload in place. -/
theorem visit_payload (accounts : visitor.Accounts owned) {h next : Host} {t : TupleValue}
    {k : Nat} {v' : VectorValue} (free : owned 0)
    (accounted : Accounted initial h (t.holdings ++ rest)) (tidy : t.Tidy owned)
    (ok : visitor.payload h (t.vectorPayloads.getD k emptyVector) = some (next,v')) :
    Accounted initial next ({ t with vectorPayloads := t.vectorPayloads.set k v' }.holdings ++ rest) ∧
      TupleValue.Tidy owned { t with vectorPayloads := t.vectorPayloads.set k v' } := by
  by_cases bound : k < t.vectorPayloads.length
  · have member : t.vectorPayloads[k] ∈ t.vectorPayloads := List.getElem_mem bound
    rw [List.getD_eq_getElem _ _ bound] at ok
    obtain ⟨others,isOthers⟩ : ∃ others, others = (t.vectorPayloads.eraseIdx k).map (·.holding) ++
      (t.reservations.map (·.holding) ++ [t.rootReservation.holding]) ++ rest := ⟨_,rfl⟩
    have before : (t.holdings ++ rest).Perm (t.vectorPayloads[k].holding :: others) := by
      have focused := (List.getElem_cons_eraseIdx_perm bound).map VectorValue.holding
      rw [isOthers]
      exact ((focused.symm.append_right _).append_right _)
    have after : ({ t with vectorPayloads := t.vectorPayloads.set k v' }.holdings ++ rest).Perm
        (v'.holding :: others) := by
      have focused := (set_perm bound v').map VectorValue.holding
      rw [isOthers]
      exact ((focused.append_right _).append_right _)
    obtain ⟨done,tidy',owned'⟩ := accounts.payload (accounted.perm before)
      (tidy.payloads _ member).1 (tidy.payloads _ member).2 ok
    refine ⟨done.perm after.symm,⟨fun v inside => ?_,tidy.reservations,tidy.root⟩⟩
    rcases List.mem_or_eq_of_mem_set inside with old | rfl
    · exact tidy.payloads v old
    · exact ⟨tidy',owned'⟩
  · have outside := Nat.le_of_not_lt bound
    rw [List.getD_eq_default _ _ outside] at ok
    rw [List.set_eq_of_length_le outside]
    exact ⟨(accounts.payload ((Accounted.cons_empty rfl rfl).mpr accounted)
      (emptyVectorOf_tidy _) free ok).1.tail,tidy⟩

/-- Visiting the table of one tuple node in place. -/
theorem visit_table (accounts : visitor.Accounts owned) {h next : Host} {t : TupleValue}
    {index : Nat} {r' : TupleTableReservation} (free : owned 0)
    (accounted : Accounted initial h (t.holdings ++ rest)) (tidy : t.Tidy owned)
    (ok : visitor.table h (t.reservationOf index) = some (next,r')) :
    Accounted initial next ((t.setReservation index r').holdings ++ rest) ∧
      (t.setReservation index r').Tidy owned := by
  unfold TupleValue.reservationOf at ok
  unfold TupleValue.setReservation
  split at ok
  · rename_i root
    rw [if_pos root]
    have order : ∀ r : TupleTableReservation,
        ({ t with rootReservation := r }.holdings ++ rest).Perm
          (r.holding :: (t.vectorPayloads.map (·.holding) ++ t.reservations.map (·.holding) ++ rest)) := by
      intro r
      have moved : (t.vectorPayloads.map (·.holding) ++ t.reservations.map (·.holding) ++
          r.holding :: rest).Perm _ := List.perm_middle
      simpa [TupleValue.holdings] using moved
    obtain ⟨done,owned'⟩ := accounts.table (accounted.perm (order t.rootReservation)) tidy.root ok
    exact ⟨done.perm (order r').symm,⟨tidy.payloads,tidy.reservations,owned'⟩⟩
  · rename_i inner
    rw [if_neg inner]
    generalize (t.node index).tupleReservationIndex = k at ok ⊢
    by_cases bound : k < t.reservations.length
    · have member : t.reservations[k] ∈ t.reservations := List.getElem_mem bound
      rw [List.getD_eq_getElem _ _ bound] at ok
      have order : ∀ (l : List TupleTableReservation) (r : TupleTableReservation),
          l.Perm (r :: t.reservations.eraseIdx k) →
          ({ t with reservations := l }.holdings ++ rest).Perm (r.holding ::
            (t.vectorPayloads.map (·.holding) ++ ((t.reservations.eraseIdx k).map (·.holding) ++
              [t.rootReservation.holding]) ++ rest)) := by
        intro l r focused
        have moved := (focused.map TupleTableReservation.holding).append_right
          [t.rootReservation.holding]
        exact ((moved.append_left _).trans List.perm_middle).append_right rest
      obtain ⟨done,owned'⟩ := accounts.table
        (accounted.perm (order _ _ (List.getElem_cons_eraseIdx_perm bound).symm))
        (tidy.reservations _ member) ok
      refine ⟨done.perm (order _ _ (set_perm bound r')).symm,⟨tidy.payloads,fun r inside => ?_,tidy.root⟩⟩
      rcases List.mem_or_eq_of_mem_set inside with old | rfl
      · exact tidy.reservations r old
      · exact owned'
    · have outside := Nat.le_of_not_lt bound
      rw [List.getD_eq_default _ _ outside] at ok
      rw [List.set_eq_of_length_le outside]
      exact ⟨(accounts.table ((Accounted.cons_empty rfl rfl).mpr accounted) free ok).1.tail,tidy⟩

def WalkOutcome.state : WalkOutcome → WalkState
  | .advanced s => s
  | .finished s => s
  | .failed _ s => s

theorem leaveNode_records (s : WalkState) :
    (leaveNode s).state.host = s.host ∧ (leaveNode s).state.tuple = s.tuple := by
  unfold leaveNode
  split <;> exact ⟨rfl,rfl⟩

theorem takeChild_records (t : TupleValue) (index : Nat) :
    ((t.takeChild index).vectorPayloads,(t.takeChild index).reservations,
      (t.takeChild index).rootReservation) =
    (t.vectorPayloads,t.reservations,t.rootReservation) := by
  unfold TupleValue.takeChild
  split <;> rfl

theorem walkStep_accounted (accounts : visitor.Accounts owned) (free : owned 0) {s : WalkState}
    (inv : s.Accounted owned initial rest) : (walkStep visitor s).state.Accounted owned initial rest := by
  have left : ∀ s' : WalkState, s'.Accounted owned initial rest →
      (leaveNode s').state.Accounted owned initial rest := by
    intro s' inv'
    obtain ⟨host,tuple⟩ := leaveNode_records s'
    exact ⟨by rw [host,tuple]; exact inv'.accounted,by rw [tuple]; exact inv'.tidy⟩
  unfold walkStep
  split
  · dsimp only
    split
    · have same := takeChild_records s.tuple s.node
      exact ⟨by simpa [WalkOutcome.state,TupleValue.holdings_congr same] using inv.accounted,
        TupleValue.tidy_congr inv.tidy same⟩
    · split
      · exact inv
      · rename_i ok
        obtain ⟨accounted,tidy⟩ := visit_table accounts free inv.accounted inv.tidy ok
        exact left _ ⟨accounted,tidy⟩
  · split
    · exact inv
    · rename_i ok
      obtain ⟨accounted,tidy⟩ := visit_payload accounts free inv.accounted inv.tidy ok
      exact left _ ⟨accounted,tidy⟩
  · exact left s inv

theorem walk_accounted (accounts : visitor.Accounts owned) (free : owned 0) (fuel : Nat) {s : WalkState}
    (inv : s.Accounted owned initial rest) : (walk visitor fuel s).1.Accounted owned initial rest := by
  induction fuel generalizing s with
  | zero => exact inv
  | succ fuel ih =>
    have stepped := walkStep_accounted accounts free inv
    unfold walk
    split
    · rename_i next equal
      exact ih (by simpa [equal,WalkOutcome.state] using stepped)
    · rename_i next equal
      simpa [equal,WalkOutcome.state] using stepped
    · rename_i next equal
      simpa [equal,WalkOutcome.state] using stepped

/-- A whole walk keeps the arena's records accounted, finished or not. -/
theorem walkArena_accounted (accounts : visitor.Accounts owned) (free : owned 0) {h : Host}
    {t : TupleValue} (accounted : Accounted initial h (t.holdings ++ rest)) (tidy : t.Tidy owned) :
    Accounted initial (walkArena visitor h t).1 ((walkArena visitor h t).2.1.holdings ++ rest) ∧
      (walkArena visitor h t).2.1.Tidy owned := by
  have linked := t.linkParents_records
  have done := walk_accounted accounts free (walkFuel t) (s := ⟨h,t.linkParents,t.rootIndex⟩)
    ⟨by simpa [TupleValue.holdings_congr linked] using accounted,TupleValue.tidy_congr tidy linked⟩
  exact ⟨done.accounted,done.tidy⟩

end Walk

namespace Accounted

variable {initial : Baseline} {h : Host} {rest : List Holding}

theorem dropVector {v : VectorValue} (accounted : Accounted initial h (v.holding :: rest))
    (tidy : v.Tidy) : Accounted initial (h.dropVector v) rest := by
  have freed := accounted.free
  rcases v with ⟨type,booleans,_,integers,_,doubles,_,_,_,_,_⟩
  have b := tidy.booleans
  have i := tidy.integers
  have d := tidy.doubles
  cases type <;> simp at b i d <;> subst_vars <;> exact freed

theorem dropVectors {vs : List VectorValue}
    (accounted : Accounted initial h (vs.map (·.holding) ++ rest)) (tidy : ∀ v ∈ vs, v.Tidy) :
    Accounted initial (vs.foldl Host.dropVector h) rest := by
  induction vs generalizing h with
  | nil => exact accounted
  | cons v vs ih =>
    exact ih (accounted.dropVector (tidy v (List.mem_cons_self ..)))
      fun w member => tidy w (List.mem_cons_of_mem _ member)

theorem dropReservations {rs : List TupleTableReservation}
    (accounted : Accounted initial h (rs.map (·.holding) ++ rest)) :
    Accounted initial (rs.foldl Host.dropReservation h) rest := by
  induction rs generalizing h with
  | nil => exact accounted
  | cons r rs ih => exact ih accounted.free

theorem dropValue {owned : Nat → Prop} {v : Value} (accounted : Accounted initial h (v.holdings ++ rest))
    (tidy : v.Tidy owned) : Accounted initial (h.dropValue v) rest := by
  have vectors : Accounted initial (h.dropVector v.vector) (v.tuple.vectorPayloads.map (·.holding) ++
      (v.tuple.reservations.map (·.holding) ++ v.tuple.rootReservation.holding :: rest)) := by
    simpa [TupleValue.holdings] using Accounted.dropVector accounted tidy.vector
  have payloads := vectors.dropVectors fun w member => (tidy.tuple.payloads w member).1
  exact payloads.dropReservations.free

end Accounted
end Bennu
