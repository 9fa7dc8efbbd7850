import Bennu.AbstractSyntax

/-! Which fault the resolution of names reports: that of the first faulty declaration, and
without one that of the unknown name which comes first in the source. -/
namespace Bennu

variable {header : RewriteParameterHeader} {declarations : List RewriteParameterDeclaration}
  {found : RewriteDiagnostic}

/-! ### Declarations -/

def namesOf (declarations : List RewriteParameterDeclaration) : List Text := declarations.map (·.name)

/-- Distinct names that are not reserved. -/
def Resolvable (declarations : List RewriteParameterDeclaration) : Prop :=
  (namesOf declarations).Nodup ∧ ∀ declaration ∈ declarations, isReservedName declaration.name = false

def duplicateName (header : RewriteParameterHeader) (declaration other : RewriteParameterDeclaration) :
    RewriteDiagnostic :=
  parameterDiagnostic .duplicateParameterName .unknownPrimitive declaration.nameSpan header.span other.nameSpan

def reservedName (header : RewriteParameterHeader) (declaration : RewriteParameterDeclaration) : RewriteDiagnostic :=
  parameterDiagnostic .reservedParameterName .unknownPrimitive declaration.nameSpan header.span declaration.nameSpan

/-- The first declaration with a fault: behind resolvable ones it repeats the name of one of
them, or its name is new and reserved. -/
def FirstFault (header : RewriteParameterHeader) (declarations : List RewriteParameterDeclaration)
    (found : RewriteDiagnostic) : Prop :=
  ∃ earlier declaration later, declarations = earlier ++ declaration :: later ∧ Resolvable earlier ∧
    ((∃ other ∈ earlier, other.name = declaration.name ∧ found = duplicateName header declaration other) ∨
      declaration.name ∉ namesOf earlier ∧ isReservedName declaration.name = true ∧
        found = reservedName header declaration)

theorem Resolvable.snoc {declaration : RewriteParameterDeclaration} (resolvable : Resolvable declarations)
    (fresh : declaration.name ∉ namesOf declarations) (free : isReservedName declaration.name = false) :
    Resolvable (declarations ++ [declaration]) := by
  obtain ⟨distinct,unreserved⟩ := resolvable
  constructor
  · rw [namesOf,List.map_append]
    refine List.nodup_append.mpr ⟨distinct,by simp,?_⟩
    intro name member other last
    rw [List.map_singleton,List.mem_singleton] at last
    rw [last]
    exact fun same => fresh (same ▸ member)
  · intro other member
    rcases List.mem_append.mp member with member | member
    · exact unreserved other member
    · rw [List.mem_singleton.mp member]
      exact free

theorem checkDeclarations_cases (header : RewriteParameterHeader) (declarations : List RewriteParameterDeclaration) :
    ∀ earlier, Resolvable earlier →
      match checkDeclarations header earlier declarations with
      | none => Resolvable (earlier ++ declarations)
      | some found => FirstFault header (earlier ++ declarations) found := by
  induction declarations with
  | nil =>
    intro earlier resolvable
    rwa [checkDeclarations,List.append_nil]
  | cons declaration later ih =>
    intro earlier resolvable
    rw [checkDeclarations]
    cases repeated : earlier.find? fun other => other.name == declaration.name with
    | some other =>
      have same := List.find?_some repeated
      exact ⟨earlier,declaration,later,rfl,resolvable,
        .inl ⟨other,List.mem_of_find?_eq_some repeated,by simpa using same,rfl⟩⟩
    | none =>
      have fresh : declaration.name ∉ namesOf earlier := by
        intro member
        obtain ⟨other,listed,same⟩ := List.mem_map.mp member
        have different := List.find?_eq_none.mp repeated other listed
        exact different (by simpa using same)
      dsimp only
      by_cases reserved : isReservedName declaration.name = true
      · rw [if_pos reserved]
        exact ⟨earlier,declaration,later,rfl,resolvable,.inr ⟨fresh,reserved,rfl⟩⟩
      · rw [if_neg reserved]
        have checked := ih (earlier ++ [declaration]) (resolvable.snoc fresh (by simpa using reserved))
        rwa [List.append_assoc] at checked

/-! ### Names -/

/-- Whether the name of a call is that of no primitive. -/
def isUnknownCall (source : Text) (call : RewriteCall) : Bool :=
  (findPrimitive (spanSpelling source call.nameSpan)).isNone

/-- The faults of names: those of calls, then the bare names. -/
def unknownNames (program : RewriteProgram) : List RewriteDiagnostic :=
  ((program.calls.filter (isUnknownCall program.source)).map fun call =>
      diagnostic .unknownPrimitive call.nameSpan call.span call.nameSpan) ++
    (program.nodes.filter (·.kind == .unresolvedName)).map fun node =>
      diagnostic .unknownPrimitive node.span node.span node.span

theorem foldl_unknownCall (program : RewriteProgram) (calls : List RewriteCall) (first : Option RewriteDiagnostic) :
    calls.foldl (unknownCall program) first =
      ((calls.filter (isUnknownCall program.source)).map fun call =>
        diagnostic .unknownPrimitive call.nameSpan call.span call.nameSpan).foldl earlierDiagnostic first := by
  induction calls generalizing first with
  | nil => rfl
  | cons call rest ih =>
    rw [List.foldl_cons,ih,unknownCall,List.filter_cons,isUnknownCall]
    cases findPrimitive (spanSpelling program.source call.nameSpan) <;> rfl

theorem foldl_unknownName (nodes : List RewriteNode) (first : Option RewriteDiagnostic) :
    nodes.foldl unknownName first =
      ((nodes.filter (·.kind == .unresolvedName)).map fun node =>
        diagnostic .unknownPrimitive node.span node.span node.span).foldl earlierDiagnostic first := by
  induction nodes generalizing first with
  | nil => rfl
  | cons node rest ih =>
    rw [List.foldl_cons,ih,unknownName,List.filter_cons]
    by_cases unresolved : node.kind = .unresolvedName <;> simp [unresolved]

/-- The two loops keep the fault of least offset. -/
theorem unknownNames_folds (program : RewriteProgram) :
    program.nodes.foldl unknownName (program.calls.foldl (unknownCall program) none) =
      (unknownNames program).foldl earlierDiagnostic none := by
  rw [foldl_unknownCall,foldl_unknownName,unknownNames,List.foldl_append]

/-- One of the faults, and none comes before it. -/
def Earliest (faults : List RewriteDiagnostic) (found : RewriteDiagnostic) : Prop :=
  found ∈ faults ∧ ∀ other ∈ faults, found.primary.begin.offset ≤ other.primary.begin.offset

theorem Earliest.snoc {faults : List RewriteDiagnostic} {first : RewriteDiagnostic} (earliest : Earliest faults first)
    (found : RewriteDiagnostic) :
    ∃ kept, earlierDiagnostic (some first) found = some kept ∧ Earliest (faults ++ [found]) kept := by
  obtain ⟨member,least⟩ := earliest
  rw [earlierDiagnostic]
  by_cases before : found.primary.begin.offset < first.primary.begin.offset
  · refine ⟨found,if_pos before,by simp,fun other listed => ?_⟩
    rcases List.mem_append.mp listed with listed | listed
    · exact Nat.le_trans (Nat.le_of_lt before) (least other listed)
    · rw [List.mem_singleton.mp listed]
  · refine ⟨first,if_neg before,List.mem_append_left _ member,fun other listed => ?_⟩
    rcases List.mem_append.mp listed with listed | listed
    · exact least other listed
    · rw [List.mem_singleton.mp listed]
      exact Nat.le_of_not_lt before

theorem foldl_earlierDiagnostic (later : List RewriteDiagnostic) :
    ∀ {faults first}, Earliest faults first →
      ∃ kept, later.foldl earlierDiagnostic (some first) = some kept ∧ Earliest (faults ++ later) kept := by
  induction later with
  | nil =>
    intro faults first earliest
    exact ⟨first,rfl,by rwa [List.append_nil]⟩
  | cons found later ih =>
    intro faults first earliest
    obtain ⟨kept,step,keeps⟩ := earliest.snoc found
    obtain ⟨last,run,least⟩ := ih keeps
    refine ⟨last,?_,by rwa [List.append_assoc] at least⟩
    rw [List.foldl_cons,step,run]

theorem foldl_earlierDiagnostic_none (faults : List RewriteDiagnostic) :
    match faults.foldl earlierDiagnostic none with
    | none => faults = []
    | some found => Earliest faults found := by
  cases faults with
  | nil => rfl
  | cons first later =>
    obtain ⟨kept,run,least⟩ := @foldl_earlierDiagnostic later [first] first ⟨by simp,by simp⟩
    rw [List.foldl_cons,earlierDiagnostic,run]
    exact least

/-! ### Resolution -/

/-- The call with its primitive. -/
def resolvedCall (source : Text) (call : RewriteCall) : RewriteCall :=
  { call with primitive := (findPrimitive (spanSpelling source call.nameSpan)).map (·.id) }

/-- Of a program that is resolved every name is known, and only its calls are changed. -/
theorem resolved_eq {program resolved : RewriteProgram} (resolution : resolveRewritePrimitives program = .ok resolved) :
    unknownNames program = [] ∧
      resolved = { program with calls := program.calls.map (resolvedCall program.source) } := by
  have named := foldl_earlierDiagnostic_none (unknownNames program)
  rw [← unknownNames_folds] at named
  rw [resolveRewritePrimitives] at resolution
  cases checked : checkDeclarations program.parameterHeader [] program.parameterHeader.declarations with
  | some found =>
    rw [checked] at resolution
    cases resolution
  | none =>
    rw [checked] at resolution
    dsimp only at resolution
    cases unknown : program.nodes.foldl unknownName (program.calls.foldl (unknownCall program) none) with
    | some found =>
      rw [unknown] at resolution
      cases resolution
    | none =>
      rw [unknown] at named resolution
      cases resolution
      exact ⟨named,rfl⟩

/-- Resolution reports the first faulty declaration, else the unknown name that comes first in
the source; without either it only gives every call its primitive. -/
theorem resolve_canonical (program : RewriteProgram) :
    match resolveRewritePrimitives program with
    | .error found =>
      FirstFault program.parameterHeader program.parameterHeader.declarations found ∨
        Resolvable program.parameterHeader.declarations ∧ Earliest (unknownNames program) found
    | .ok resolved =>
      Resolvable program.parameterHeader.declarations ∧ unknownNames program = [] ∧
        resolved = { program with calls := program.calls.map (resolvedCall program.source) } := by
  have declared := checkDeclarations_cases program.parameterHeader program.parameterHeader.declarations []
    ⟨List.nodup_nil,fun _ member => absurd member List.not_mem_nil⟩
  have named := foldl_earlierDiagnostic_none (unknownNames program)
  rw [← unknownNames_folds] at named
  rw [resolveRewritePrimitives]
  cases checked : checkDeclarations program.parameterHeader [] program.parameterHeader.declarations with
  | some found =>
    rw [checked] at declared
    exact .inl declared
  | none =>
    rw [checked] at declared
    dsimp only
    cases unknown : program.nodes.foldl unknownName (program.calls.foldl (unknownCall program) none) with
    | some found =>
      rw [unknown] at named
      exact .inr ⟨declared,named⟩
    | none =>
      rw [unknown] at named
      exact ⟨declared,named,rfl⟩

end Bennu
