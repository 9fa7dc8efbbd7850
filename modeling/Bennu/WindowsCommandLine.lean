import Mathlib

/-! The command line `run_process` hands to Windows, and the rules by which the C runtime of
the started program splits it. -/
namespace Bennu

/-- Units of `wchar_t`, which is 16 bits wide on Windows. -/
abbrev WideText := List UInt16

/-- What a terminated string can hold. -/
structure WideString where
  text : WideText
  terminated : 0 ∉ text

def wideQuote : UInt16 := 0x22
def wideBackslash : UInt16 := 0x5c
def wideSpace : UInt16 := 0x20
def wideTab : UInt16 := 0x09

def backslashes (count : Nat) : WideText := List.replicate count wideBackslash

/-! ### Quoting -/

/-- One round of the loop of `quote_windows_argument`: the text so far and the backslashes
that have not been written yet. -/
def quoteCharacter (state : WideText × Nat) (character : UInt16) : WideText × Nat :=
  if character = wideBackslash then (state.1,state.2 + 1)
  else if character = wideQuote then (state.1 ++ backslashes (state.2 * 2 + 1) ++ [wideQuote],0)
  else (state.1 ++ backslashes state.2 ++ [character],0)

def quoteWindowsArgument (argument : WideText) : WideText :=
  let quoted := argument.foldl quoteCharacter ([wideQuote],0)
  quoted.1 ++ backslashes (quoted.2 * 2) ++ [wideQuote]

/-- The command line of `run_process`. -/
def commandLine (executable : WideText) (arguments : List WideText) : WideText :=
  arguments.foldl (fun line argument => line ++ [wideSpace] ++ quoteWindowsArgument argument)
    (quoteWindowsArgument executable)

/-- The buffer `CreateProcessW` reads. -/
def mutableCommand (executable : WideText) (arguments : List WideText) : WideText :=
  commandLine executable arguments ++ [0]

/-! ### Splitting, by the rules of the Microsoft C runtime -/

def isWideBlank (character : UInt16) : Bool := character == wideSpace || character == wideTab

/-- The program name: quotes only say where blank belongs to it, and nothing escapes them. -/
def scanProgramName (quoted : Bool) : WideText → WideText × WideText
  | [] => ([],[])
  | character :: rest =>
    if character = wideQuote then scanProgramName (!quoted) rest
    else if !quoted && isWideBlank character then ([],rest)
    else
      let scanned := scanProgramName quoted rest
      (character :: scanned.1,scanned.2)

/-- One argument and the text after it; `slashes` backslashes have just been read. Before a
quote every two of them stand for one, and an odd one makes the quote literal. Two quotes
inside quotes are one literal quote. -/
def scanArgument (quoted : Bool) (slashes : Nat) : WideText → WideText × WideText
  | [] => (backslashes slashes,[])
  | character :: rest =>
    if character = wideBackslash then scanArgument quoted (slashes + 1) rest
    else if character = wideQuote then
      if slashes % 2 = 1 then
        let scanned := scanArgument quoted 0 rest
        (backslashes (slashes / 2) ++ wideQuote :: scanned.1,scanned.2)
      else
        match rest with
        | next :: later =>
          if quoted = true ∧ next = wideQuote then
            let scanned := scanArgument quoted 0 later
            (backslashes (slashes / 2) ++ wideQuote :: scanned.1,scanned.2)
          else
            let scanned := scanArgument (!quoted) 0 (next :: later)
            (backslashes (slashes / 2) ++ scanned.1,scanned.2)
        | [] => (backslashes (slashes / 2),[])
    else if !quoted && isWideBlank character then (backslashes slashes,character :: rest)
    else
      let scanned := scanArgument quoted 0 rest
      (backslashes slashes ++ character :: scanned.1,scanned.2)

/-- The arguments; each takes at least one character. -/
def scanArguments : Nat → WideText → List WideText
  | 0,_ => []
  | fuel + 1,text =>
    match text.dropWhile isWideBlank with
    | [] => []
    | character :: rest =>
      let scanned := scanArgument false 0 (character :: rest)
      scanned.1 :: scanArguments fuel scanned.2

/-- `argv` of a command line, which ends at its first NUL. -/
def splitCommandLine (line : WideText) : List WideText :=
  let scanned := scanProgramName false (line.takeWhile (· != 0))
  scanned.1 :: scanArguments scanned.2.length scanned.2

/-! ### What quoting writes -/

/-- What `quote_windows_argument` still writes with `slashes` backslashes not yet written. -/
def quotedFrom : Nat → WideText → WideText
  | slashes,[] => backslashes (slashes * 2) ++ [wideQuote]
  | slashes,character :: rest =>
    if character = wideBackslash then quotedFrom (slashes + 1) rest
    else if character = wideQuote then backslashes (slashes * 2 + 1) ++ wideQuote :: quotedFrom 0 rest
    else backslashes slashes ++ character :: quotedFrom 0 rest

section quoting

variable {argument rest : WideText} {character : UInt16} {slashes : Nat}

theorem quoteCharacter_from (argument : WideText) : ∀ written slashes,
    (argument.foldl quoteCharacter (written,slashes)).1 ++
        backslashes ((argument.foldl quoteCharacter (written,slashes)).2 * 2) ++ [wideQuote] =
      written ++ quotedFrom slashes argument := by
  induction argument with
  | nil => intro written slashes; simp [quotedFrom]
  | cons character rest ih =>
    intro written slashes
    rw [List.foldl_cons,quoteCharacter,quotedFrom]
    split
    · exact ih written (slashes + 1)
    split
    · rw [ih]
      simp
    · rw [ih]
      simp

theorem quoteWindowsArgument_eq (argument : WideText) :
    quoteWindowsArgument argument = wideQuote :: quotedFrom 0 argument :=
  quoteCharacter_from argument [wideQuote] 0

theorem mem_backslashes {count : Nat} (member : character ∈ backslashes count) : character = wideBackslash :=
  List.eq_of_mem_replicate member

/-- Quoting adds backslashes and quotes only. -/
theorem mem_quotedFrom (argument : WideText) : ∀ slashes, character ∈ quotedFrom slashes argument →
    character ∈ argument ∨ character = wideBackslash ∨ character = wideQuote := by
  induction argument with
  | nil =>
    intro slashes member
    rcases List.mem_append.mp member with member | member
    · exact .inr (.inl (mem_backslashes member))
    · exact .inr (.inr (List.mem_singleton.mp member))
  | cons first rest ih =>
    intro slashes member
    have later {slashes : Nat} (member : character ∈ quotedFrom slashes rest) :
        character ∈ first :: rest ∨ character = wideBackslash ∨ character = wideQuote :=
      (ih slashes member).imp_left (List.mem_cons_of_mem _)
    rw [quotedFrom] at member
    split at member
    · exact later member
    split at member
    · rcases List.mem_append.mp member with member | member
      · exact .inr (.inl (mem_backslashes member))
      · rcases List.mem_cons.mp member with same | member
        · exact .inr (.inr same)
        · exact later member
    · rcases List.mem_append.mp member with member | member
      · exact .inr (.inl (mem_backslashes member))
      · rcases List.mem_cons.mp member with same | member
        · exact .inl (same ▸ List.mem_cons_self ..)
        · exact later member

/-- Without quotes in it, a quoted text has its last quote only. -/
theorem quotedFrom_plain (argument : WideText) : ∀ slashes, wideQuote ∉ argument →
    ∃ inner, quotedFrom slashes argument = inner ++ [wideQuote] ∧ wideQuote ∉ inner := by
  have apart : ∀ count, wideQuote ∉ backslashes count := fun count member =>
    absurd (mem_backslashes member) (by decide)
  induction argument with
  | nil => exact fun slashes _ => ⟨_,rfl,apart _⟩
  | cons first rest ih =>
    intro slashes plain
    obtain ⟨other,others⟩ := not_or.mp fun member => plain (List.mem_cons.mpr member)
    rw [quotedFrom]
    split
    · exact ih _ others
    · obtain ⟨inner,same,free⟩ := ih 0 others
      rw [if_neg (Ne.symm other),same]
      refine ⟨backslashes slashes ++ first :: inner,by simp,?_⟩
      simp [apart,other,free]

end quoting

/-! ### Splitting what quoting wrote -/

/-- Arguments as they stand in a command line. -/
def argumentLine (arguments : List WideText) : WideText :=
  arguments.flatMap fun argument => wideSpace :: quoteWindowsArgument argument

section splitting

variable {executable argument rest : WideText} {arguments : List WideText}

theorem commandLine_eq (arguments : List WideText) : ∀ line : WideText,
    arguments.foldl (fun line argument => line ++ [wideSpace] ++ quoteWindowsArgument argument) line =
      line ++ argumentLine arguments := by
  induction arguments with
  | nil => intro line; exact (List.append_nil line).symm
  | cons argument arguments ih =>
    intro line
    rw [List.foldl_cons,ih]
    simp [argumentLine]

theorem wideQuote_ne : ¬wideQuote = wideBackslash := by decide

theorem scanArgument_backslash (quoted : Bool) (slashes : Nat) (rest : WideText) :
    scanArgument quoted slashes (wideBackslash :: rest) = scanArgument quoted (slashes + 1) rest := by
  rw [scanArgument.eq_def]
  dsimp only
  rw [if_pos rfl]

/-- An odd number of backslashes makes a quote literal. -/
theorem scanArgument_escaped (quoted : Bool) (count : Nat) (rest : WideText) :
    scanArgument quoted (count * 2 + 1) (wideQuote :: rest) =
      (backslashes count ++ wideQuote :: (scanArgument quoted 0 rest).1,(scanArgument quoted 0 rest).2) := by
  have odd : (count * 2 + 1) % 2 = 1 := by omega
  have half : (count * 2 + 1) / 2 = count := by omega
  rw [scanArgument.eq_def]
  dsimp only
  rw [if_neg wideQuote_ne,if_pos rfl,if_pos odd,half]

theorem scanArgument_opened (rest : WideText) :
    scanArgument false 0 (wideQuote :: rest) = scanArgument true 0 rest := by
  have even : ¬0 % 2 = 1 := by decide
  rw [scanArgument.eq_def]
  dsimp only
  rw [if_neg wideQuote_ne,if_pos rfl,if_neg even]
  cases rest with
  | nil => rfl
  | cons next later => rfl

/-- After an even number of backslashes a quote that no quote follows ends the quotes. -/
theorem scanArgument_closed (count : Nat) (next : rest.head? ≠ some wideQuote) :
    scanArgument true (count * 2) (wideQuote :: rest) =
      (backslashes count ++ (scanArgument false 0 rest).1,(scanArgument false 0 rest).2) := by
  have even : ¬count * 2 % 2 = 1 := by omega
  have half : count * 2 / 2 = count := by omega
  rw [scanArgument.eq_def]
  dsimp only
  rw [if_neg wideQuote_ne,if_pos rfl,if_neg even,half]
  cases rest with
  | nil => exact congrArg (·,[]) (List.append_nil _).symm
  | cons first later =>
    have other : ¬(true = true ∧ first = wideQuote) := fun same => next (congrArg some same.2)
    exact if_neg other

theorem scanArgument_plain {character : UInt16} (slashes : Nat) (rest : WideText)
    (slash : ¬character = wideBackslash) (quote : ¬character = wideQuote) :
    scanArgument true slashes (character :: rest) =
      (backslashes slashes ++ character :: (scanArgument true 0 rest).1,(scanArgument true 0 rest).2) := by
  rw [scanArgument.eq_def]
  dsimp only
  rw [if_neg slash,if_neg quote]
  rfl

theorem scanArgument_blank (rest : WideText) :
    scanArgument false 0 (wideSpace :: rest) = ([],wideSpace :: rest) := by
  rw [scanArgument.eq_def]
  rfl

theorem scanArgument_backslashes (quoted : Bool) (count : Nat) : ∀ slashes,
    scanArgument quoted slashes (backslashes count ++ rest) = scanArgument quoted (slashes + count) rest := by
  induction count with
  | zero => intro slashes; rfl
  | succ count ih =>
    intro slashes
    have step : backslashes (count + 1) ++ rest = wideBackslash :: (backslashes count ++ rest) := rfl
    rw [step,scanArgument_backslash,ih,Nat.add_right_comm,Nat.add_assoc]

theorem argumentLine_next (arguments : List WideText) :
    argumentLine arguments = [] ∨ ∃ more, argumentLine arguments = wideSpace :: more := by
  cases arguments with
  | nil => exact .inl rfl
  | cons argument arguments => exact .inr ⟨_,rfl⟩

/-- Outside quotes an argument ends where the next one is separated. -/
theorem scanArgument_ends (arguments : List WideText) :
    scanArgument false 0 (argumentLine arguments) = ([],argumentLine arguments) ∧
      (argumentLine arguments).head? ≠ some wideQuote := by
  rcases argumentLine_next arguments with empty | ⟨more,next⟩
  · rw [empty]
    exact ⟨rfl,nofun⟩
  · rw [next]
    exact ⟨scanArgument_blank more,by simp [wideSpace,wideQuote]⟩

/-- Inside its quotes an argument is read as it was, with the backslashes still to be written. -/
theorem scanArgument_quoted (argument : WideText) (arguments : List WideText) : ∀ slashes,
    scanArgument true 0 (quotedFrom slashes argument ++ argumentLine arguments) =
      (backslashes slashes ++ argument,argumentLine arguments) := by
  induction argument with
  | nil =>
    intro slashes
    obtain ⟨ends,next⟩ := scanArgument_ends arguments
    rw [quotedFrom,List.append_assoc,scanArgument_backslashes,Nat.zero_add,List.singleton_append,
      scanArgument_closed slashes next,ends]
  | cons character rest ih =>
    intro slashes
    rw [quotedFrom]
    by_cases slash : character = wideBackslash
    · have more : backslashes (slashes + 1) = backslashes slashes ++ [wideBackslash] := List.replicate_succ'
      rw [if_pos slash,ih,slash,more,List.append_assoc]
      rfl
    rw [if_neg slash]
    by_cases quote : character = wideQuote
    · rw [if_pos quote,List.append_assoc,scanArgument_backslashes,Nat.zero_add,List.cons_append,
        scanArgument_escaped,ih,quote]
      rfl
    · rw [if_neg quote,List.append_assoc,scanArgument_backslashes,Nat.zero_add,List.cons_append,
        scanArgument_plain slashes _ slash quote,ih]
      rfl

/-- A quoted argument is read back. -/
theorem scanArgument_round_trip (argument : WideText) (arguments : List WideText) :
    scanArgument false 0 (quoteWindowsArgument argument ++ argumentLine arguments) =
      (argument,argumentLine arguments) := by
  rw [quoteWindowsArgument_eq,List.cons_append,scanArgument_opened,scanArgument_quoted]
  rfl

theorem scanArguments_round_trip (arguments : List WideText) : ∀ fuel, arguments.length ≤ fuel →
    scanArguments fuel (argumentLine arguments) = arguments := by
  induction arguments with
  | nil => intro fuel _; cases fuel <;> rfl
  | cons argument arguments ih =>
    intro fuel enough
    obtain ⟨fuel,rfl⟩ := Nat.exists_eq_succ_of_ne_zero (Nat.ne_of_gt (Nat.lt_of_lt_of_le (Nat.succ_pos _) enough))
    have skipped : (argumentLine (argument :: arguments)).dropWhile isWideBlank =
        wideQuote :: (quotedFrom 0 argument ++ argumentLine arguments) := by
      rw [argumentLine,List.flatMap_cons,List.cons_append,List.dropWhile_cons_of_pos (by decide),
        quoteWindowsArgument_eq,List.cons_append,List.dropWhile_cons_of_neg (by decide)]
      rfl
    have read := scanArgument_round_trip argument arguments
    rw [quoteWindowsArgument_eq,List.cons_append] at read
    simp only [scanArguments,skipped,read,ih fuel (Nat.le_of_succ_le_succ enough)]

theorem scanProgramName_quoted (inner : WideText) (plain : wideQuote ∉ inner) :
    scanProgramName true (inner ++ rest) =
      (inner ++ (scanProgramName true rest).1,(scanProgramName true rest).2) := by
  induction inner with
  | nil => rfl
  | cons first inner ih =>
    obtain ⟨other,others⟩ := not_or.mp fun member => plain (List.mem_cons.mpr member)
    rw [List.cons_append,scanProgramName,if_neg (Ne.symm other)]
    simp only [Bool.not_true,Bool.false_and,Bool.false_eq_true,if_false,ih others,List.cons_append]

/-- The program name takes the blank after it. -/
theorem scanProgramName_rest (plain : wideQuote ∉ executable) (arguments : List WideText) :
    (scanProgramName false (quoteWindowsArgument executable ++ argumentLine arguments)).2 =
      (argumentLine arguments).tail := by
  obtain ⟨inner,same,free⟩ := quotedFrom_plain executable 0 plain
  rw [quoteWindowsArgument_eq,same,List.cons_append,scanProgramName,if_pos rfl,List.append_assoc,Bool.not_false,
    scanProgramName_quoted inner free,List.singleton_append,scanProgramName,if_pos rfl]
  rcases argumentLine_next arguments with empty | ⟨more,next⟩
  · rw [empty]
    rfl
  · rw [next]
    rfl

theorem length_le_argumentLine (arguments : List WideText) : arguments.length ≤ (argumentLine arguments).tail.length := by
  have total : 2 * arguments.length ≤ (argumentLine arguments).length := by
    induction arguments with
    | nil => exact Nat.le_refl 0
    | cons argument arguments ih =>
      have step : argumentLine (argument :: arguments) =
          wideSpace :: wideQuote :: (quotedFrom 0 argument ++ argumentLine arguments) := by
        rw [argumentLine,List.flatMap_cons,quoteWindowsArgument_eq]
        rfl
      rw [step]
      simp only [List.length_cons,List.length_append]
      omega
  rw [List.length_tail]
  omega

theorem scanArguments_tail (arguments : List WideText) (fuel : Nat) :
    scanArguments fuel (argumentLine arguments).tail = scanArguments fuel (argumentLine arguments) := by
  rcases argumentLine_next arguments with empty | ⟨more,next⟩
  · rw [empty]
    rfl
  · rw [next]
    cases fuel <;> rfl

/-- What is quoted from terminated strings has no NUL before its end. -/
theorem commandLine_terminated (executable : WideString) (arguments : List WideString) :
    0 ∉ commandLine executable.text (arguments.map (·.text)) := by
  have quoted (argument : WideString) : 0 ∉ quoteWindowsArgument argument.text := by
    rw [quoteWindowsArgument_eq]
    intro member
    rcases List.mem_cons.mp member with same | member
    · exact absurd same (by decide)
    rcases mem_quotedFrom _ _ member with member | same | same
    · exact argument.terminated member
    · exact absurd same (by decide)
    · exact absurd same (by decide)
  rw [commandLine,commandLine_eq]
  intro member
  rcases List.mem_append.mp member with member | member
  · exact quoted executable member
  · obtain ⟨text,texts,member⟩ := List.mem_flatMap.mp member
    obtain ⟨argument,-,rfl⟩ := List.mem_map.mp texts
    rcases List.mem_cons.mp member with same | member
    · exact absurd same (by decide)
    · exact quoted argument member

end splitting

/-- The started program reads the arguments `run_process` was given. -/
theorem windows_arguments_round_trip (executable : WideString) (arguments : List WideString)
    (unquoted : wideQuote ∉ executable.text) :
    (splitCommandLine (mutableCommand executable.text (arguments.map (·.text)))).tail =
      arguments.map (·.text) := by
  have whole : (mutableCommand executable.text (arguments.map (·.text))).takeWhile (· != 0) =
      commandLine executable.text (arguments.map (·.text)) := by
    rw [mutableCommand,List.takeWhile_append_of_pos]
    · exact List.append_nil _
    · intro character member
      simp only [bne_iff_ne]
      rintro rfl
      exact commandLine_terminated executable arguments member
  rw [splitCommandLine,whole,commandLine,commandLine_eq,List.tail_cons,scanProgramName_rest unquoted,
    scanArguments_tail]
  exact scanArguments_round_trip _ _ (length_le_argumentLine _)

/-- `c:\a b` with an empty argument, one that ends in a backslash after a blank, and one
with a backslash before a quote. -/
theorem windows_arguments_round_trip_mixed :
    (splitCommandLine (mutableCommand [0x63,0x3a,0x5c,0x61,0x20,0x62] [[],[0x20,0x5c],[0x5c,0x22,0x78]])).tail =
      [[],[0x20,0x5c],[0x5c,0x22,0x78]] :=
  windows_arguments_round_trip ⟨[0x63,0x3a,0x5c,0x61,0x20,0x62],by decide⟩
    [⟨[],by decide⟩,⟨[0x20,0x5c],by decide⟩,⟨[0x5c,0x22,0x78],by decide⟩] (by decide)

end Bennu
