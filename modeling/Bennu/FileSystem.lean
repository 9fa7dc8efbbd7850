import Mathlib

/-! A file system as its named entries, with calls of which any may fail: what
each call can change, and how the paths that a program reserved for itself
account for everything that differs from what it found. -/
namespace FileSystem

/-- The names of a path, the innermost first. -/
abbrev Path := List (List Char)

/-- A regular file keeps its identity while it is written and renamed, and under every name. -/
inductive Entry where
  | file (identity : Nat) (bytes : List Char) (executable : Bool)
  | directory
  | other
  deriving DecidableEq

inductive FileError where
  | exists
  | other
  deriving DecidableEq

def Entry.identity : Entry → Option Nat
  | .file identity _ _ => some identity
  | .directory => none
  | .other => none

end FileSystem

/-- Every entry stands in a directory, no file has an identity still to be given out, and the
names of one file show the same file. -/
structure FileSystem where
  entries : List (FileSystem.Path × FileSystem.Entry)
  nextIdentity : Nat
  housed : ∀ name path, (entries.lookup (name :: path)).isSome = true → entries.lookup path = some .directory
  issued : ∀ path entry identity,
    entries.lookup path = some entry → entry.identity = some identity → identity < nextIdentity
  linked : ∀ path other entry link identity, entries.lookup path = some entry → entries.lookup other = some link →
    entry.identity = some identity → link.identity = some identity → entry = link

namespace FileSystem

variable {files before : FileSystem} {path inner : Path} {name : List Char} {entry : Entry}

def find (files : FileSystem) (path : Path) : Option Entry := files.entries.lookup path

theorem lookup_cons (entries : List (Path × Entry)) (path other : Path) (entry : Entry) :
    ((path,entry) :: entries).lookup other = if other = path then some entry else entries.lookup other := by
  rw [List.lookup_cons]
  by_cases here : other = path
  · simp [here]
  · rw [if_neg here,beq_eq_false_iff_ne.mpr here]

theorem lookup_filter (keeps : Path → Bool) (entries : List (Path × Entry)) (path : Path) :
    (entries.filter fun entry => keeps entry.1).lookup path = if keeps path then entries.lookup path else none := by
  induction entries with
  | nil => simp
  | cons head rest ih =>
    obtain ⟨other,entry⟩ := head
    by_cases here : path = other
    · subst here
      cases kept : keeps path with
      | true => simp [kept]
      | false => simpa [kept] using ih
    · cases kept : keeps other with
      | true => rw [List.filter_cons_of_pos (by exact kept),lookup_cons,lookup_cons,if_neg here,if_neg here,ih]
      | false => rw [List.filter_cons_of_neg (by simp [kept]),lookup_cons,if_neg here,ih]

/-- Something stands only in directories. -/
theorem find_parent (found : files.find (name :: path) = some entry) : files.find path = some .directory :=
  files.housed name path (by rw [← find,found]; rfl)

theorem find_above (found : files.find path = some entry) (above : inner <:+ path) :
    inner = path ∨ files.find inner = some .directory := by
  induction path generalizing entry with
  | nil => exact .inl (List.suffix_nil.mp above)
  | cons name path ih =>
    rcases List.suffix_cons_iff.mp above with same | above
    · exact .inl same
    · rcases ih (find_parent found) above with rfl | stands
      · exact .inr (find_parent found)
      · exact .inr stands

/-- Below what is absent there is nothing. -/
theorem find_below (absent : files.find inner = none) (below : inner <:+ path) : files.find path = none := by
  cases found : files.find path with
  | none => rfl
  | some entry =>
    rcases find_above found below with rfl | stands
    · rw [absent] at found
      cases found
    · rw [absent] at stands
      cases stands

/-! ### Edits -/

/-- An entry that can be placed: a new file, or another name of one that is there. -/
def Fits (files : FileSystem) (entry : Entry) : Prop :=
  ∀ identity, entry.identity = some identity → identity ≤ files.nextIdentity ∧
    ∀ path link, files.find path = some link → link.identity = some identity → link = entry

theorem fits_directory (files : FileSystem) : files.Fits .directory := by
  intro identity same
  cases same

theorem fits_new (files : FileSystem) (bytes : List Char) (executable : Bool) :
    files.Fits (.file files.nextIdentity bytes executable) := by
  intro identity same
  cases same
  refine ⟨Nat.le_refl _,fun path link found given => ?_⟩
  exact absurd (files.issued path link _ found given) (Nat.lt_irrefl _)

theorem fits_found (found : files.find path = some entry) : files.Fits entry := fun identity given =>
  ⟨Nat.le_of_lt (files.issued path entry identity found given),
    fun other link stands same => files.linked other path link entry identity stands found same given⟩

/-- Put an entry where no directory is. -/
def place (files : FileSystem) (name : List Char) (path : Path) (entry : Entry)
    (parent : files.find path = some .directory) (vacant : files.find (name :: path) ≠ some .directory)
    (fits : files.Fits entry) : FileSystem where
  entries := (name :: path,entry) :: files.entries
  nextIdentity := files.nextIdentity + 1
  housed := by
    intro other above found
    rw [lookup_cons] at found ⊢
    have apart : above ≠ name :: path := by
      rintro rfl
      by_cases here : other :: name :: path = name :: path
      · exact absurd (congrArg List.length here) (by simp)
      · rw [if_neg here] at found
        exact vacant (files.housed _ _ found)
    rw [if_neg apart]
    by_cases here : other :: above = name :: path
    · cases here
      exact parent
    · rw [if_neg here] at found
      exact files.housed _ _ found
  issued := by
    intro other placed identity found given
    rw [lookup_cons] at found
    by_cases here : other = name :: path
    · rw [if_pos here] at found
      cases found
      exact Nat.lt_succ_of_le (fits identity given).1
    · rw [if_neg here] at found
      exact Nat.lt_succ_of_lt (files.issued _ _ _ found given)
  linked := by
    intro first second one two identity foundOne foundTwo givenOne givenTwo
    rw [lookup_cons] at foundOne foundTwo
    split at foundOne <;> split at foundTwo
    · exact Option.some.inj (foundOne.symm.trans foundTwo)
    · cases foundOne
      exact ((fits identity givenOne).2 second two foundTwo givenTwo).symm
    · cases foundTwo
      exact (fits identity givenTwo).2 first one foundOne givenOne
    · exact files.linked first second one two identity foundOne foundTwo givenOne givenTwo

theorem lookup_map (edit : Entry → Entry) (entries : List (Path × Entry)) (path : Path) :
    (entries.map fun named => (named.1,edit named.2)).lookup path = (entries.lookup path).map edit := by
  induction entries with
  | nil => rfl
  | cons head rest ih =>
    obtain ⟨other,entry⟩ := head
    rw [List.map_cons,lookup_cons,lookup_cons,ih]
    split <;> rfl

/-- The file of this entry's identity, under every name it has. -/
def Entry.revise (entry link : Entry) : Entry :=
  if link.identity = entry.identity ∧ link.identity ≠ none then entry else link

theorem Entry.revise_identity (entry link : Entry) : (entry.revise link).identity = link.identity := by
  unfold Entry.revise
  split
  · rename_i same
    exact same.1.symm
  · rfl

theorem Entry.revise_directory (entry link : Entry) (known : entry ≠ .directory) :
    entry.revise link = .directory ↔ link = .directory := by
  unfold Entry.revise
  split
  · rename_i same
    refine ⟨fun here => absurd here known,fun here => ?_⟩
    rw [here] at same
    exact absurd rfl same.2
  · exact Iff.rfl

/-- Change a file under all its names. -/
def overwrite (files : FileSystem) (entry : Entry) (known : entry ≠ .directory) : FileSystem where
  entries := files.entries.map fun named => (named.1,entry.revise named.2)
  nextIdentity := files.nextIdentity
  housed := by
    intro name path found
    rw [lookup_map] at found ⊢
    rw [Option.isSome_map] at found
    rw [files.housed name path found,Option.map_some,(Entry.revise_directory entry .directory known).mpr rfl]
  issued := by
    intro path placed identity found given
    rw [lookup_map] at found
    obtain ⟨old,stands,rfl⟩ := Option.map_eq_some_iff.mp found
    rw [Entry.revise_identity] at given
    exact files.issued path old identity stands given
  linked := by
    intro first second one two identity foundOne foundTwo givenOne givenTwo
    rw [lookup_map] at foundOne foundTwo
    obtain ⟨oldOne,standsOne,rfl⟩ := Option.map_eq_some_iff.mp foundOne
    obtain ⟨oldTwo,standsTwo,rfl⟩ := Option.map_eq_some_iff.mp foundTwo
    rw [Entry.revise_identity] at givenOne givenTwo
    rw [files.linked first second oldOne oldTwo identity standsOne standsTwo givenOne givenTwo]

/-- Remove an entry and all below it. -/
def prune (files : FileSystem) (path : Path) : FileSystem where
  entries := files.entries.filter fun entry => !decide (path <:+ entry.1)
  nextIdentity := files.nextIdentity
  housed := by
    intro name above found
    rw [lookup_filter fun other => !decide (path <:+ other)] at found ⊢
    by_cases below : path <:+ name :: above
    · simp [below] at found
    · have apart : ¬path <:+ above := fun suffix => below (suffix.trans (List.suffix_cons ..))
      simp only [below,decide_false,Bool.not_false,if_true] at found
      simp only [apart,decide_false,Bool.not_false,if_true]
      exact files.housed _ _ found
  issued := by
    intro other entry identity found given
    rw [lookup_filter fun other => !decide (path <:+ other)] at found
    split at found
    · exact files.issued _ _ _ found given
    · cases found
  linked := by
    intro first second one two identity foundOne foundTwo givenOne givenTwo
    rw [lookup_filter fun other => !decide (path <:+ other)] at foundOne foundTwo
    split at foundOne
    · split at foundTwo
      · exact files.linked first second one two identity foundOne foundTwo givenOne givenTwo
      · cases foundTwo
    · cases foundOne

@[simp] theorem prune_nextIdentity : (files.prune path).nextIdentity = files.nextIdentity := rfl

theorem find_prune (other : Path) :
    (files.prune path).find other = if path <:+ other then none else files.find other := by
  rw [find,prune,lookup_filter fun other => !decide (path <:+ other)]
  by_cases below : path <:+ other
  · simp [below]
  · simp [below,find]

theorem fits_prune (fits : files.Fits entry) : (files.prune path).Fits entry := by
  intro identity given
  obtain ⟨issued,same⟩ := fits identity given
  refine ⟨issued,fun other link found => same other link ?_⟩
  rw [find_prune] at found
  split at found
  · cases found
  · exact found

/-! ### What the calls do -/

def createDirectory (path : Path) (files : FileSystem) : Except FileError FileSystem :=
  match path with
  | [] => .error .exists
  | name :: path =>
    if parent : files.find path = some .directory then
      if absent : files.find (name :: path) = none then
        .ok (files.place name path .directory parent (by simp [absent]) files.fits_directory)
      else .error .exists
    else .error .other

/-- `O_CREAT | O_EXCL`. -/
def createExclusive (path : Path) (files : FileSystem) : Except FileError FileSystem :=
  match path with
  | [] => .error .exists
  | name :: path =>
    if parent : files.find path = some .directory then
      if absent : files.find (name :: path) = none then
        .ok (files.place name path (.file files.nextIdentity [] false) parent (by simp [absent])
          (files.fits_new [] false))
      else .error .exists
    else .error .other

/-- Give a file other bytes; it stays the file it is. -/
def rewrite (path : Path) (edit : List Char → List Char) (files : FileSystem) : Except FileError FileSystem :=
  match files.find path with
  | some (.file identity bytes executable) =>
    .ok (files.overwrite (.file identity (edit bytes) executable) Entry.noConfusion)
  | _ => .error .other

/-- `O_CREAT | O_TRUNC`. -/
def openTruncated (path : Path) (files : FileSystem) : Except FileError FileSystem :=
  match files.find path with
  | none => createExclusive path files
  | some _ => rewrite path (fun _ => []) files

def write (path : Path) (bytes : List Char) : FileSystem → Except FileError FileSystem :=
  rewrite path (· ++ bytes)

/-- Two names of one file. -/
def sameFile (files : FileSystem) (path other : Path) : Bool :=
  match files.find path, files.find other with
  | some (.file identity _ _), some (.file link _ _) => identity == link
  | _, _ => false

/-- Rename a file; what the target named is gone, unless it is a directory. Of two names of one
file, neither is touched. -/
def rename (source target : Path) (files : FileSystem) : Except FileError FileSystem :=
  if files.sameFile source target then .ok files
  else match found : files.find source, target with
  | some (.file identity bytes executable), name :: path =>
    if parent : (files.prune source).find path = some .directory then
      if vacant : (files.prune source).find (name :: path) ≠ some .directory then
        .ok ((files.prune source).place name path (.file identity bytes executable) parent vacant
          (fits_prune (fits_found found)))
      else .error .other
    else .error .other
  | _, _ => .error .other

/-- Copy a file to a path that names nothing. -/
def copy (source target : Path) (files : FileSystem) : Except FileError FileSystem :=
  match files.find source, target with
  | some (.file _ bytes executable), name :: path =>
    if parent : files.find path = some .directory then
      if absent : files.find (name :: path) = none then
        .ok (files.place name path (.file files.nextIdentity bytes executable) parent (by simp [absent])
          (files.fits_new bytes executable))
      else .error .exists
    else .error .other
  | _, _ => .error .other

/-- A directory is removed only when it is empty. -/
def remove (path : Path) (files : FileSystem) : Except FileError FileSystem :=
  if files.entries.any (fun entry => decide (path <:+ entry.1) && decide (entry.1 ≠ path)) then .error .other
  else .ok (files.prune path)

def removeAll (path : Path) (files : FileSystem) : Except FileError FileSystem := .ok (files.prune path)

/-- A file has changed under all its names, and nothing else has. -/
structure Overwrites (files left : FileSystem) (entry : Entry) : Prop where
  find : ∀ other, left.find other = (files.find other).map entry.revise
  issued : left.nextIdentity = files.nextIdentity

/-- The entry at one path is now this one; it replaced no directory, and nothing else changed. -/
structure Writes (files left : FileSystem) (path : Path) (entry : Entry) : Prop where
  find : ∀ other, left.find other = if other = path then some entry else files.find other
  vacant : files.find path ≠ some .directory
  grown : files.nextIdentity ≤ left.nextIdentity

section calls

variable {left : FileSystem} {source target : Path} {edit : List Char → List Char}

theorem Writes.here (writes : Writes files left path entry) : left.find path = some entry := by
  rw [writes.find,if_pos rfl]

theorem Writes.apart (writes : Writes files left path entry) (apart : inner ≠ path) :
    left.find inner = files.find inner := by
  rw [writes.find,if_neg apart]

theorem Writes.directory (writes : Writes files left path entry) (stands : files.find inner = some .directory) :
    left.find inner = some .directory := by
  rw [writes.apart]
  · exact stands
  · rintro rfl
    exact writes.vacant stands

theorem place_writes (parent : files.find path = some .directory) (vacant : files.find (name :: path) ≠ some .directory)
    (fits : files.Fits entry) : Writes files (files.place name path entry parent vacant fits) (name :: path) entry :=
  ⟨fun other => lookup_cons files.entries (name :: path) other entry,vacant,Nat.le_succ _⟩

theorem createDirectory_ok (made : createDirectory path files = .ok left) :
    files.find path = none ∧ files.find path.tail = some .directory ∧ Writes files left path .directory := by
  unfold createDirectory at made
  split at made
  · cases made
  split at made
  · rename_i parent
    split at made
    · rename_i absent
      cases made
      exact ⟨absent,parent,place_writes parent _ _⟩
    · cases made
  · cases made

theorem createExclusive_ok (made : createExclusive path files = .ok left) :
    files.find path = none ∧ files.find path.tail = some .directory ∧
      Writes files left path (.file files.nextIdentity [] false) := by
  unfold createExclusive at made
  split at made
  · cases made
  split at made
  · rename_i parent
    split at made
    · rename_i absent
      cases made
      exact ⟨absent,parent,place_writes parent _ _⟩
    · cases made
  · cases made

theorem rewrite_ok (made : rewrite path edit files = .ok left) :
    ∃ identity bytes executable, files.find path = some (.file identity bytes executable) ∧
      Overwrites files left (.file identity (edit bytes) executable) := by
  unfold rewrite at made
  split at made
  · rename_i found
    cases made
    exact ⟨_,_,_,found,fun other => lookup_map _ files.entries other,rfl⟩
  · cases made

/-- What was written is there. -/
theorem Overwrites.here {identity : Nat} {old bytes : List Char} {executable : Bool}
    (overwrites : Overwrites files left (.file identity bytes executable))
    (found : files.find path = some (.file identity old executable)) :
    left.find path = some (.file identity bytes executable) := by
  rw [overwrites.find,found,Option.map_some,Entry.revise,if_pos ⟨rfl,Option.some_ne_none _⟩]

/-- A file of another identity is left alone. -/
theorem Overwrites.apart (overwrites : Overwrites files left entry)
    (apart : ∀ link, files.find path = some link → link.identity = entry.identity → link.identity = none) :
    left.find path = files.find path := by
  rw [overwrites.find]
  cases found : files.find path with
  | none => rfl
  | some link =>
    rw [Option.map_some,Entry.revise,if_neg]
    rintro ⟨same,known⟩
    exact known (apart link found same)

theorem copy_ok (made : copy source target files = .ok left) :
    files.find target = none ∧ ∃ identity bytes executable, files.find source = some (.file identity bytes executable) ∧
      Writes files left target (.file files.nextIdentity bytes executable) := by
  unfold copy at made
  split at made
  · rename_i found
    split at made
    · rename_i parent
      split at made
      · rename_i absent
        cases made
        exact ⟨absent,_,_,_,found,place_writes parent _ _⟩
      · cases made
    · cases made
  · cases made

theorem sameFile_iff {other : Path} : files.sameFile path other = true ↔
    ∃ entry identity, entry.identity = some identity ∧ files.find path = some entry ∧
      files.find other = some entry := by
  unfold sameFile
  constructor
  · intro same
    split at same
    · rename_i identity _ _ link _ _ found stands
      obtain rfl := beq_iff_eq.mp same
      have one := files.linked _ _ _ _ identity found stands rfl rfl
      exact ⟨_,identity,rfl,found,one ▸ stands⟩
    · cases same
  · rintro ⟨entry,identity,given,found,stands⟩
    cases entry with
    | file => rw [found,stands]; exact beq_self_eq_true _
    | directory => cases given
    | other => cases given

/-- A rename does nothing to two names of one file, and moves any other file. -/
theorem rename_ok (made : rename source target files = .ok left) :
    ∃ identity bytes executable, files.find source = some (.file identity bytes executable) ∧
      ((files.find target = some (.file identity bytes executable) ∧ left = files) ∨
      files.sameFile source target = false ∧ (files.prune source).find target ≠ some .directory ∧
        Writes (files.prune source) left target (.file identity bytes executable)) := by
  unfold rename at made
  split at made
  · rename_i same
    cases made
    obtain ⟨entry,identity,given,found,stands⟩ := sameFile_iff.mp same
    cases entry with
    | file => exact ⟨_,_,_,found,.inl ⟨stands,rfl⟩⟩
    | directory => cases given
    | other => cases given
  rename_i apart
  split at made
  · rename_i found
    split at made
    · rename_i parent
      split at made
      · rename_i vacant
        cases made
        exact ⟨_,_,_,found,.inr ⟨Bool.eq_false_iff.mpr apart,vacant,place_writes parent vacant _⟩⟩
      · cases made
    · cases made
  · cases made

theorem remove_ok (made : remove path files = .ok left) : left = files.prune path := by
  unfold remove at made
  split at made
  · cases made
  · cases made
    rfl

/-- Removing a file does not touch another entry. -/
theorem prune_file {identity : Nat} {bytes : List Char} {executable : Bool}
    (found : files.find path = some (.file identity bytes executable)) (stands : files.find inner = some entry)
    (apart : inner ≠ path) : (files.prune path).find inner = some entry := by
  rw [find_prune,if_neg]
  · exact stands
  · intro above
    rcases find_above stands above with same | directory
    · exact apart same.symm
    · rw [found] at directory
      cases directory

end calls

/-! ### What another program does -/

/-- A link gives a file another name. -/
inductive Change where
  | file (bytes : List Char) (executable : Bool)
  | link (source : Path)
  | directory
  | other
  | removed

/-- The entry that a change makes; a file gets the next identity, a link the one it has. -/
def Change.result (files : FileSystem) : Change → Option Entry
  | .file bytes executable => some (.file files.nextIdentity bytes executable)
  | .link source => match files.find source with
    | some (.file identity bytes executable) => some (.file identity bytes executable)
    | _ => none
  | .directory => some .directory
  | .other => some .other
  | .removed => none

theorem Change.result_fits {change : Change} (made : change.result files = some entry) : files.Fits entry := by
  cases change with
  | file bytes executable =>
    cases made
    exact files.fits_new bytes executable
  | link source =>
    simp only [Change.result] at made
    split at made
    · rename_i found
      cases made
      exact fits_found found
    · cases made
  | directory =>
    cases made
    exact files.fits_directory
  | other =>
    cases made
    intro identity given
    cases given
  | removed => cases made

/-- A change at a path; one that is not possible there has no effect. -/
def apply (files : FileSystem) (path : Path) (change : Change) : FileSystem :=
  match change with
  | .removed => files.prune path
  | change => match path, made : change.result files with
    | name :: path, some entry =>
      if possible : files.find path = some .directory ∧ files.find (name :: path) ≠ some .directory then
        files.place name path entry possible.1 possible.2 (Change.result_fits made)
      else files
    | _, _ => files

/-- Changes at paths below a directory. -/
def applyAll (directory : Path) (changes : List (List Char × Path × Change)) (files : FileSystem) : FileSystem :=
  changes.foldl (fun files change => files.apply (change.1 :: (change.2.1 ++ directory)) change.2.2) files

theorem apply_cases (files : FileSystem) (path : Path) (change : Change) :
    files.apply path change = files ∨ files.apply path change = files.prune path ∨
    ∃ entry, Writes files (files.apply path change) path entry := by
  unfold apply
  split
  · exact .inr (.inl rfl)
  split
  · split
    · rename_i possible
      exact .inr (.inr ⟨_,place_writes possible.1 possible.2 _⟩)
    · exact .inl rfl
  · exact .inl rfl

/-! ### What a program reserved -/

/-- A file that is not older than `before`. -/
def Entry.Young (before : FileSystem) (entry : Entry) : Prop :=
  ∀ identity, entry.identity = some identity → before.nextIdentity ≤ identity

theorem Entry.directory_young (before : FileSystem) : Entry.directory.Young before := by
  intro identity given
  cases given

/-- Whatever differs from `before` stands at or below a path that named nothing then. A file
there is a new one, unless an alien program may have linked an older one. -/
structure Confined (before : FileSystem) (alien : Prop) (taken : Set Path) (files : FileSystem) : Prop where
  absent : ∀ path ∈ taken, before.find path = none
  kept : ∀ path, (∀ reserved ∈ taken, ¬reserved <:+ path) → files.find path = before.find path
  young : ¬alien → ∀ reserved ∈ taken, ∀ path, reserved <:+ path → ∀ entry,
    files.find path = some entry → entry.Young before
  grown : before.nextIdentity ≤ files.nextIdentity

namespace Confined

variable {alien : Prop} {taken : Set Path} {left : FileSystem}

theorem start (alien : Prop) (files : FileSystem) : Confined files alien ∅ files :=
  ⟨nofun,fun _ _ => rfl,fun _ => nofun,Nat.le_refl _⟩

theorem invaded (confined : Confined before alien taken files) (invasion : Prop) (happened : invasion) :
    Confined before invasion taken files :=
  ⟨confined.absent,confined.kept,fun peaceful => absurd happened peaceful,confined.grown⟩

/-- What was there before stands outside all that is reserved. -/
theorem outside (confined : Confined before alien taken files) (stands : before.find path ≠ none) :
    ∀ reserved ∈ taken, ¬reserved <:+ path :=
  fun reserved member above => stands (find_below (confined.absent reserved member) above)

theorem standing (confined : Confined before alien taken files) (stands : before.find path ≠ none) :
    files.find path = before.find path :=
  confined.kept path (confined.outside stands)

theorem fresh (confined : Confined before alien taken files) (absent : files.find path = none) :
    before.find path = none := by
  by_contra stands
  exact stands ((confined.standing stands).symm.trans absent)

theorem reserve (confined : Confined before alien taken files) (absent : files.find path = none)
    (writes : Writes files left path entry) (young : ¬alien → entry.Young before) :
    Confined before alien (insert path taken) left := by
  refine ⟨fun other member => ?_,fun other outside => ?_,fun peaceful reserved member other above link => ?_,
    confined.grown.trans writes.grown⟩
  · rcases member with rfl | member
    · exact confined.fresh absent
    · exact confined.absent other member
  · have apart : other ≠ path := by
      rintro rfl
      exact outside other (.inl rfl) (List.suffix_refl _)
    rw [writes.apart apart]
    exact confined.kept other fun reserved member => outside reserved (.inr member)
  · by_cases here : other = path
    · rw [here,writes.here]
      exact fun same => Option.some.inj same ▸ young peaceful
    · rw [writes.apart here]
      rcases member with rfl | member
      · rw [find_below absent above]
        exact nofun
      · exact confined.young peaceful reserved member other above link

theorem within (confined : Confined before alien taken files) (member : inner ∈ taken) (below : inner <:+ path)
    (writes : Writes files left path entry) (young : ¬alien → entry.Young before) :
    Confined before alien taken left := by
  refine ⟨confined.absent,fun other outside => ?_,fun peaceful reserved member other above link => ?_,
    confined.grown.trans writes.grown⟩
  · have apart : other ≠ path := by
      rintro rfl
      exact outside inner member below
    rw [writes.apart apart]
    exact confined.kept other outside
  · by_cases here : other = path
    · rw [here,writes.here]
      exact fun same => Option.some.inj same ▸ young peaceful
    · rw [writes.apart here]
      exact confined.young peaceful reserved member other above link

/-- A new file changes under all its names, none of which was there before. -/
theorem overwritten (confined : Confined before alien taken files) (peaceful : ¬alien) (member : inner ∈ taken)
    (below : inner <:+ path) {old : Entry} (found : files.find path = some old)
    (same : entry.identity = old.identity) (overwrites : Overwrites files left entry) :
    Confined before alien taken left := by
  refine ⟨confined.absent,fun other outside => ?_,fun peaceful reserved member other above link stands => ?_,
    confined.grown.trans (Nat.le_of_eq overwrites.issued.symm)⟩
  · rw [overwrites.apart,confined.kept other outside]
    intro link stands given
    cases known : link.identity with
    | none => rfl
    | some identity =>
      -- the file is too new for a path that nobody reserved
      have young := confined.young peaceful inner member path below old found identity (by rw [← same,← given,known])
      rw [confined.kept other outside] at stands
      exact absurd (before.issued other link identity stands known) (Nat.not_lt_of_le young)
  · rw [overwrites.find] at stands
    obtain ⟨older,stood,rfl⟩ := Option.map_eq_some_iff.mp stands
    intro identity given
    rw [Entry.revise_identity] at given
    exact confined.young peaceful reserved member other above older stood identity given

/-- Pruning keeps what is found a part of what was found. -/
theorem young_prune (confined : Confined before alien taken files) (cut : Path) (peaceful : ¬alien) {reserved : Path}
    (member : reserved ∈ taken) (other : Path) (above : reserved <:+ other) (link : Entry)
    (found : (files.prune cut).find other = some link) : link.Young before := by
  rw [find_prune] at found
  split at found
  · cases found
  · exact confined.young peaceful reserved member other above link found

theorem thin (confined : Confined before alien taken files) (member : inner ∈ taken) (below : inner <:+ path) :
    Confined before alien taken (files.prune path) := by
  refine ⟨confined.absent,fun other outside => ?_,fun peaceful _ member => confined.young_prune path peaceful member,
    confined.grown⟩
  rw [find_prune,if_neg fun above => outside inner member (below.trans above)]
  exact confined.kept other outside

theorem release (confined : Confined before alien taken files) (member : path ∈ taken) :
    Confined before alien (taken \ {path}) (files.prune path) := by
  refine ⟨fun other member => confined.absent other member.1,fun other outside => ?_,
    fun peaceful _ member => confined.young_prune path peaceful member.1,confined.grown⟩
  rw [find_prune]
  split
  · rename_i below
    exact (find_below (confined.absent path member) below).symm
  · rename_i apart
    refine confined.kept other fun reserved inside above => ?_
    by_cases here : reserved = path
    · exact apart (here ▸ above)
    · exact outside reserved ⟨inside,here⟩ above

end Confined

/-! ### Calls that may fail -/

/-- The files, and which calls on them fail; `removalFailed` remembers a failed removal. -/
structure Disk where
  files : FileSystem
  failures : Nat → Option FileError
  calls : Nat
  removalFailed : Bool

namespace Disk

/-- A call that fails has no effect. -/
def call (disk : Disk) (operate : FileSystem → Except FileError FileSystem) : Option FileError × Disk :=
  let disk' := { disk with calls := disk.calls + 1 }
  match disk.failures disk.calls with
  | some error => (some error,disk')
  | none => match operate disk.files with
    | .error error => (some error,disk')
    | .ok files => (none,{ disk' with files })

/-- A call that only looks. -/
def query {α : Type} (disk : Disk) (look : FileSystem → Option α) : Option α × Disk :=
  let disk' := { disk with calls := disk.calls + 1 }
  match disk.failures disk.calls with
  | some _ => (none,disk')
  | none => (look disk.files,disk')

/-- A removal; whether it succeeded. -/
def discard (disk : Disk) (operate : FileSystem → Except FileError FileSystem) : Bool × Disk :=
  let removed := disk.call operate
  match removed.1 with
  | none => (true,removed.2)
  | some _ => (false,{ removed.2 with removalFailed := true })

variable {disk : Disk} {operate : FileSystem → Except FileError FileSystem}

theorem call_cases (disk : Disk) (operate : FileSystem → Except FileError FileSystem) :
    (∃ error, disk.call operate = (some error,{ disk with calls := disk.calls + 1 })) ∨
    ∃ files, operate disk.files = .ok files ∧
      disk.call operate = (none,{ disk with calls := disk.calls + 1, files }) := by
  unfold call
  dsimp only
  cases disk.failures disk.calls with
  | some error => exact .inl ⟨error,rfl⟩
  | none =>
    cases done : operate disk.files with
    | error error => exact .inl ⟨error,rfl⟩
    | ok files => exact .inr ⟨files,rfl,rfl⟩

theorem query_cases {α : Type} (disk : Disk) (look : FileSystem → Option α) :
    disk.query look = (none,{ disk with calls := disk.calls + 1 }) ∨
      disk.query look = (look disk.files,{ disk with calls := disk.calls + 1 }) := by
  unfold query
  dsimp only
  cases disk.failures disk.calls with
  | some error => exact .inl rfl
  | none => exact .inr rfl

theorem discard_cases (disk : Disk) (operate : FileSystem → Except FileError FileSystem) :
    disk.discard operate = (false,{ disk with calls := disk.calls + 1, removalFailed := true }) ∨
    ∃ files, operate disk.files = .ok files ∧
      disk.discard operate = (true,{ disk with calls := disk.calls + 1, files }) := by
  unfold discard
  rcases call_cases disk operate with ⟨error,failed⟩ | ⟨files,done,same⟩
  · rw [failed]
    exact .inl rfl
  · rw [same]
    exact .inr ⟨files,done,rfl⟩

/-- Only what is reserved differs: the paths in use, and those a failed removal left behind.
None of them stands above `location`, unless the location itself was taken for a directory
and the excuse holds. -/
def Holding (before : FileSystem) (location : Path) (excuse alien : Prop) (live : Set Path) (disk : Disk) : Prop :=
  ∃ left : Set Path, Confined before alien (live ∪ left) disk.files ∧ (disk.removalFailed = false → left = ∅) ∧
    ∀ path ∈ live ∪ left, path <:+ location →
      path = location ∧ excuse ∧ disk.files.find location = some .directory

namespace Holding

variable {location : Path} {excuse alien : Prop} {live : Set Path} {later : Disk}

theorem start (alien : Prop) (disk : Disk) : Holding disk.files location excuse alien ∅ disk := by
  refine ⟨∅,?_,fun _ => rfl,?_⟩
  · rw [Set.union_empty]
    exact .start alien disk.files
  · simp

/-- Calls that changed no file. -/
theorem same (holding : Holding before location excuse alien live disk) (files : later.files = disk.files)
    (removal : later.removalFailed = disk.removalFailed) : Holding before location excuse alien live later := by
  obtain ⟨left,confined,tidy,spares⟩ := holding
  exact ⟨left,files ▸ confined,fun intact => tidy (removal ▸ intact),files ▸ spares⟩

theorem reserve (holding : Holding before location excuse alien live disk) (absent : disk.files.find path = none)
    (writes : Writes disk.files later.files path entry) (young : ¬alien → entry.Young before)
    (removal : later.removalFailed = disk.removalFailed)
    (spare : path <:+ location → path = location ∧ excuse ∧ entry = .directory) :
    Holding before location excuse alien (insert path live) later := by
  obtain ⟨left,confined,tidy,spares⟩ := holding
  refine ⟨left,?_,fun intact => tidy (removal ▸ intact),?_⟩
  · rw [Set.insert_union]
    exact confined.reserve absent writes young
  · rw [Set.insert_union,Set.forall_mem_insert]
    refine ⟨fun above => ?_,fun other member above => ?_⟩
    · obtain ⟨rfl,excused,rfl⟩ := spare above
      exact ⟨rfl,excused,writes.here⟩
    · obtain ⟨same,excused,stands⟩ := spares other member above
      exact ⟨same,excused,writes.directory stands⟩

theorem within (holding : Holding before location excuse alien live disk) (member : inner ∈ live) (below : inner <:+ path)
    (writes : Writes disk.files later.files path entry) (young : ¬alien → entry.Young before)
    (removal : later.removalFailed = disk.removalFailed) : Holding before location excuse alien live later := by
  obtain ⟨left,confined,tidy,spares⟩ := holding
  refine ⟨left,confined.within (.inl member) below writes young,fun intact => tidy (removal ▸ intact),
    fun other member above => ?_⟩
  obtain ⟨same,excused,stands⟩ := spares other member above
  exact ⟨same,excused,writes.directory stands⟩

/-- Something is removed below a path in use. -/
theorem thin (holding : Holding before location excuse alien live disk) (member : inner ∈ live) (below : inner <:+ path)
    (apart : inner ≠ path) (files : later.files = disk.files.prune path)
    (removal : later.removalFailed = disk.removalFailed) : Holding before location excuse alien live later := by
  obtain ⟨left,confined,tidy,spares⟩ := holding
  refine ⟨left,files ▸ confined.thin (.inl member) below,fun intact => tidy (removal ▸ intact),
    fun other taken above => ?_⟩
  obtain ⟨same,excused,stands⟩ := spares other taken above
  refine ⟨same,excused,?_⟩
  rw [files,find_prune,if_neg]
  · exact stands
  · intro cut
    obtain ⟨rfl,-⟩ := spares inner (.inl member) (below.trans cut)
    exact apart (below.eq_of_length_le cut.length_le)

/-- A removal frees the path, or fails and says so. -/
theorem discard (holding : Holding before location excuse alien live disk) (member : path ∈ live)
    (prunes : ∀ files, operate disk.files = .ok files → files = disk.files.prune path) :
    Holding before location excuse alien (live \ {path}) (disk.discard operate).2 := by
  obtain ⟨left,confined,tidy,spares⟩ := holding
  rcases discard_cases disk operate with failed | ⟨files,done,same⟩
  · rw [failed]
    have whole : live \ {path} ∪ insert path left = live ∪ left := by
      ext other
      by_cases here : other = path
      · subst here
        simp [member]
      · simp [here]
    exact ⟨insert path left,whole.symm ▸ confined,nofun,whole.symm ▸ spares⟩
  · rw [same]
    cases prunes files done
    have whole : live \ {path} ∪ left \ {path} = (live ∪ left) \ {path} := Set.union_sdiff_distrib.symm
    refine ⟨left \ {path},whole.symm ▸ confined.release (.inl member),fun intact => ?_,fun other inside above => ?_⟩
    · rw [tidy intact,Set.empty_sdiff]
    · rw [whole] at inside
      obtain ⟨rfl,excused,stands⟩ := spares other inside.1 above
      refine ⟨rfl,excused,?_⟩
      rw [find_prune,if_neg]
      · exact stands
      · intro cut
        exact inside.2 (spares path (.inl member) cut).1.symm

theorem grown (holding : Holding before location excuse alien live disk) : before.nextIdentity ≤ disk.files.nextIdentity :=
  let ⟨_,confined,_⟩ := holding
  confined.grown

/-- A file below a path in use is a new one. -/
theorem young (holding : Holding before location excuse alien live disk) (peaceful : ¬alien) (member : inner ∈ live)
    (below : inner <:+ path) (found : disk.files.find path = some entry) : entry.Young before :=
  let ⟨_,confined,_⟩ := holding
  confined.young peaceful inner (.inl member) path below entry found

theorem new_young (holding : Holding before location excuse alien live disk) (bytes : List Char) (executable : Bool) :
    (Entry.file disk.files.nextIdentity bytes executable).Young before := by
  intro identity given
  cases given
  exact holding.grown

/-- From now on an alien program may have made links. -/
theorem invaded (holding : Holding before location excuse alien live disk) {invasion : Prop} (happened : invasion) :
    Holding before location excuse invasion live disk := by
  obtain ⟨left,confined,tidy,spares⟩ := holding
  exact ⟨left,confined.invaded invasion happened,tidy,spares⟩

/-- A file is renamed from below one path in use to another path in use. -/
theorem move (holding : Holding before location excuse alien live disk) {source target : Path} (member : inner ∈ live)
    (below : inner <:+ source) (apart : inner ≠ source) (taken : target ∈ live)
    (renamed : rename source target disk.files = .ok later.files) (removal : later.removalFailed = disk.removalFailed) :
    Holding before location excuse alien live later := by
  obtain ⟨identity,bytes,executable,found,⟨-,still⟩ | ⟨-,-,writes⟩⟩ := rename_ok renamed
  · exact holding.same still removal
  have thinned : Holding before location excuse alien live { disk with files := disk.files.prune source } :=
    holding.thin member below apart rfl rfl
  exact thinned.within taken (List.suffix_refl _) writes (fun peaceful => holding.young peaceful member below found) removal

theorem call (holding : Holding before location excuse alien live disk)
    (keeps : ∀ files, operate disk.files = .ok files → Holding before location excuse alien live { disk with files }) :
    Holding before location excuse alien live (disk.call operate).2 := by
  rcases call_cases disk operate with ⟨error,failed⟩ | ⟨files,done,same⟩
  · rw [failed]
    exact holding.same rfl rfl
  · rw [same]
    exact (keeps files done).same rfl rfl

theorem query {α : Type} (holding : Holding before location excuse alien live disk) (look : FileSystem → Option α) :
    Holding before location excuse alien live (disk.query look).2 := by
  rcases query_cases disk look with failed | same
  · rw [failed]
    exact holding.same rfl rfl
  · rw [same]
    exact holding.same rfl rfl

theorem rewritten (holding : Holding before location excuse alien live disk) (peaceful : ¬alien) (member : inner ∈ live)
    (below : inner <:+ path) {edit : List Char → List Char} {files : FileSystem}
    (done : rewrite path edit disk.files = .ok files) :
    Holding before location excuse alien live { disk with files } := by
  obtain ⟨identity,bytes,executable,found,overwrites⟩ := rewrite_ok done
  obtain ⟨left,confined,tidy,spares⟩ := holding
  have same : (Entry.file identity (edit bytes) executable).identity =
      (Entry.file identity bytes executable).identity := rfl
  refine ⟨left,confined.overwritten peaceful (.inl member) below found same overwrites,tidy,
    fun other taken above => ?_⟩
  obtain ⟨same,excused,stands⟩ := spares other taken above
  refine ⟨same,excused,?_⟩
  rw [overwrites.find,stands]
  rfl

theorem created (holding : Holding before location excuse alien live disk) (member : inner ∈ live) (below : inner <:+ path)
    {files : FileSystem} (done : createExclusive path disk.files = .ok files) :
    Holding before location excuse alien live { disk with files } := by
  obtain ⟨-,-,writes⟩ := createExclusive_ok done
  exact holding.within member below writes (fun _ => holding.new_young _ _) rfl

theorem opened (holding : Holding before location excuse alien live disk) (peaceful : ¬alien) (member : inner ∈ live)
    (below : inner <:+ path) {files : FileSystem} (done : openTruncated path disk.files = .ok files) :
    Holding before location excuse alien live { disk with files } := by
  unfold openTruncated at done
  split at done
  · exact holding.created member below done
  · exact holding.rewritten peaceful member below done

theorem copied {source : Path} (holding : Holding before location excuse alien live disk) (member : inner ∈ live)
    (below : inner <:+ path) {files : FileSystem} (done : copy source path disk.files = .ok files) :
    Holding before location excuse alien live { disk with files } := by
  obtain ⟨-,_,_,_,-,writes⟩ := copy_ok done
  exact holding.within member below writes (fun _ => holding.new_young _ _) rfl

/-- An alien program changes what is below a directory in use. -/
theorem applied (holding : Holding before location excuse alien live disk) (happened : alien) (member : inner ∈ live)
    (changes : List (List Char × Path × Change)) :
    Holding before location excuse alien live { disk with files := disk.files.applyAll inner changes } := by
  induction changes generalizing disk with
  | nil => exact holding
  | cons change changes ih =>
    have below : inner <:+ change.1 :: (change.2.1 ++ inner) := (List.suffix_append ..).trans (List.suffix_cons ..)
    have apart : inner ≠ change.1 :: (change.2.1 ++ inner) := fun same => by
      have := congrArg List.length same
      simp at this
      omega
    refine @ih { disk with files := disk.files.apply (change.1 :: (change.2.1 ++ inner)) change.2.2 } ?_
    rcases apply_cases disk.files (change.1 :: (change.2.1 ++ inner)) change.2.2 with same | cut | ⟨entry,writes⟩
    · exact holding.same same rfl
    · exact holding.thin member below apart cut rfl
    · exact holding.within member below writes (fun peaceful => absurd happened peaceful) rfl

theorem standing (holding : Holding before location excuse alien live disk) (stands : before.find path ≠ none) :
    disk.files.find path = before.find path :=
  let ⟨_,confined,_⟩ := holding
  confined.standing stands

theorem fresh (holding : Holding before location excuse alien live disk) (absent : disk.files.find path = none) :
    before.find path = none :=
  let ⟨_,confined,_⟩ := holding
  confined.fresh absent

theorem absent (holding : Holding before location excuse alien live disk) (member : path ∈ live) : before.find path = none :=
  let ⟨_,confined,_⟩ := holding
  confined.absent path (.inl member)

/-- The location is as it was, unless it was taken for a directory that could not be removed. -/
theorem located (holding : Holding before location excuse alien ∅ disk) :
    disk.files.find location = before.find location ∨
      excuse ∧ disk.removalFailed = true ∧ before.find location = none ∧
        disk.files.find location = some .directory := by
  obtain ⟨left,confined,tidy,spares⟩ := holding
  rw [Set.empty_union] at confined spares
  by_cases taken : ∃ reserved ∈ left, reserved <:+ location
  · obtain ⟨reserved,member,above⟩ := taken
    obtain ⟨rfl,excused,stands⟩ := spares reserved member above
    refine .inr ⟨excused,?_,confined.absent reserved member,stands⟩
    by_contra intact
    rw [tidy (by simpa using intact)] at member
    exact member
  · exact .inl (confined.kept location fun reserved member above => taken ⟨reserved,member,above⟩)

/-- With nothing in use and no removal failed, everything is as it was. -/
theorem clean (holding : Holding before location excuse alien ∅ disk) (intact : disk.removalFailed = false) (path : Path) :
    disk.files.find path = before.find path := by
  obtain ⟨left,confined,tidy,-⟩ := holding
  rw [tidy intact,Set.union_empty] at confined
  exact confined.kept path nofun

/-- What was at the location before is there still. -/
theorem kept (holding : Holding before location excuse alien live disk)
    (stands : before.find location ≠ none ∨ disk.files.find location ≠ some .directory) :
    disk.files.find location = before.find location := by
  obtain ⟨left,confined,-,spares⟩ := holding
  refine confined.kept location fun reserved member above => ?_
  obtain ⟨same,-,directory⟩ := spares reserved member above
  rcases stands with stood | other
  · exact stood (same ▸ confined.absent reserved member)
  · exact other directory

/-- The one file in use takes the place of what is at the location, unless it is that already. -/
theorem publish {source : Path} (holding : Holding before location excuse alien {source} disk)
    (found : disk.files.find source = some entry) (renamed : rename source location disk.files = .ok later.files)
    (removal : later.removalFailed = disk.removalFailed) :
    later.files.find location = some entry ∧
    (∀ path, path ≠ location → before.find path ≠ none → later.files.find path = before.find path) ∧
    (before.find location ≠ some entry → later.removalFailed = false →
      ∀ path, path ≠ location → later.files.find path = before.find path) ∧
    (before.find location = some entry → later.files.find source = some entry ∧ (later.removalFailed = false →
      ∀ path, path ≠ source → later.files.find path = before.find path)) := by
  have missing {path : Path} (below : source <:+ path) : before.find path = none :=
    find_below (holding.absent rfl) below
  obtain ⟨identity,bytes,executable,stands,cases⟩ := rename_ok renamed
  rw [found] at stands
  cases stands
  rcases cases with ⟨one,still⟩ | ⟨apart,-,writes⟩
  · have same := holding.kept (.inr (by rw [one]; exact nofun))
    rw [still]
    refine ⟨one,fun path _ stands => holding.standing stands,fun other => absurd (same.symm.trans one) other,
      fun _ => ⟨found,fun intact path apart => ?_⟩⟩
    by_cases below : source <:+ path
    · -- nothing stands below a file
      rw [missing below]
      cases nothing : disk.files.find path with
      | none => rfl
      | some link =>
        rcases find_above nothing below with here | directory
        · exact absurd here.symm apart
        · rw [found] at directory
          cases directory
    · obtain ⟨left,confined,tidy,-⟩ := holding
      rw [tidy (removal ▸ intact),Set.union_empty] at confined
      exact confined.kept path fun reserved member => (Set.mem_singleton_iff.mp member) ▸ below
  · have pruned (path : Path) (apart : path ≠ location) :
        later.files.find path = if source <:+ path then none else disk.files.find path :=
      (writes.apart apart).trans (find_prune path)
    refine ⟨writes.here,fun path apart stands => ?_,fun _ intact path apart => ?_,fun one => ?_⟩
    · rw [pruned path apart,if_neg fun below => stands (missing below)]
      exact holding.standing stands
    · rw [pruned path apart]
      split
      · rename_i below
        exact (missing below).symm
      · rename_i outside
        obtain ⟨left,confined,tidy,-⟩ := holding
        rw [tidy (removal ▸ intact),Set.union_empty] at confined
        exact confined.kept path fun reserved member => (Set.mem_singleton_iff.mp member) ▸ outside
    · have same := holding.kept (.inl (by rw [one]; exact nofun))
      have two := sameFile_iff.mpr ⟨_,identity,rfl,found,same.trans one⟩
      rw [apart] at two
      cases two

end Holding

end Disk

end FileSystem
