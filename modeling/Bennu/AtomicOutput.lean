import Bennu.Tokenizer
import Bennu.FileSystem

/-! Publishing a file in one step: `build_native` and `write_file_atomically` over
a file system in which any call may fail. Whatever fails and whatever the compiler
does, the output path names the new file exactly when success is reported. -/
namespace Bennu

open FileSystem

inductive NativePlatform where
  | gccLike
  | windowsMsvc
  deriving DecidableEq

inductive CompilerConfiguration where
  | explicitOption
  | environment
  | fallback

structure CompilerSelection where
  ok : Bool
  executable : Text
  configuration : CompilerConfiguration
  error : Text

structure NativeBuildRequest where
  cSource : Text
  outputPath : Text
  explicitCompiler : Text
  environmentCompiler : Text

structure NativeBuildResult where
  ok : Bool
  error : Text

structure ProcessResult where
  started : Bool
  terminated : Bool
  exitCode : Int
  startError : Int
  output : Text

/-- An absolute path as it is spelled: a directory and a last name. -/
structure OutputPath where
  directory : Path
  filename : Text

/-- What the path names: the last name may be none, `.` or `..`. -/
def OutputPath.location (output : OutputPath) : Path :=
  if output.filename = [] ∨ output.filename = ['.'] then output.directory
  else if output.filename = ['.','.'] then output.directory.tail
  else output.filename :: output.directory

/-- The path with a suffix behind its last name. -/
def OutputPath.beside (output : OutputPath) (suffix : Text) : Path := (output.filename ++ suffix) :: output.directory

/-- What starting the compiler came to. A process that ran has changed what it wanted below
its working directory and printed to the log. -/
inductive CompilerRun where
  | refused (startError : Int)
  | ran (changes : List (Text × Path × Change)) (printed : Text) (started terminated : Bool)
    (exitCode startError : Int)

/-- What the functions below learn from the platform. -/
structure BuildEnvironment where
  platform : NativePlatform
  executableExists : Text → Bool
  resolvePathExecutable : Text → Text
  /-- `path_for_io_from_utf8`, `absolute` and `path_to_utf8` of a compiler's path. -/
  launchPath : Text → Option Text
  /-- `path_for_io_from_utf8` and `absolute` of the output path. -/
  outputPath : Text → Option OutputPath
  pathToUtf8 : Path → Option Text
  temporaryDirectory : Option Path
  processId : Nat
  tickCount : Nat
  errorNumber : FileError → Int
  compiler : Text → List Text → Path → FileSystem → CompilerRun

/-! ### Naming the compiler -/

def CompilerConfiguration.name : CompilerConfiguration → Text
  | .explicitOption => "--cc".toList
  | .environment => "CC".toList
  | .fallback => "platform fallback".toList

def isPathSeparator (character : Char) : Bool := character == '/' || character == '\\'

def hasPathSeparator (executable : Text) : Bool := executable.any isPathSeparator

def lowerFilename (compiler : Text) : Text :=
  (compiler.reverse.takeWhile (!isPathSeparator ·)).reverse.map Char.toLower

def compilerPlatform (host : NativePlatform) (compiler : Text) : NativePlatform :=
  match host with
  | .gccLike => .gccLike
  | .windowsMsvc =>
    if lowerFilename compiler = "cl".toList ∨ lowerFilename compiler = "cl.exe".toList then .windowsMsvc
    else .gccLike

def selectCCompiler (environment : BuildEnvironment) (explicitCompiler environmentCompiler : Text) :
    CompilerSelection :=
  if explicitCompiler ≠ [] then ⟨true,explicitCompiler,.explicitOption,[]⟩
  else if environmentCompiler ≠ [] then ⟨true,environmentCompiler,.environment,[]⟩
  else
    let fallback := match environment.platform with
      | .windowsMsvc => "cl.exe".toList
      | .gccLike => "cc".toList
    if !environment.executableExists fallback then
      ⟨false,[],.fallback,"no C compiler found by platform fallback ('".toList ++ fallback ++ "')".toList⟩
    else ⟨true,fallback,.fallback,[]⟩

def makeCCompilerArguments (platform : NativePlatform) (compiler cSourcePath nativeOutputPath : Text) : List Text :=
  match compilerPlatform platform compiler with
  | .windowsMsvc => ["/nologo".toList,"/std:c11".toList,"/fp:strict".toList,cSourcePath,
      "/Fe:".toList ++ nativeOutputPath,"/Fo:".toList ++ nativeOutputPath ++ ".obj".toList]
  | .gccLike => ["-std=c11".toList,"-frounding-math".toList,"-ffp-contract=off".toList,"-fno-fast-math".toList,
      cSourcePath,"-o".toList,nativeOutputPath,"-lm".toList]

/-- The path that is launched, or the error. -/
def launchExecutable (environment : BuildEnvironment) (selection : CompilerSelection) : Except Text Text :=
  let separated := hasPathSeparator selection.executable
  if separated || selection.executable.contains ':' then
    match environment.launchPath selection.executable with
    | none => .error ("compiler selected from ".toList ++ selection.configuration.name ++ " ('".toList ++
        selection.executable ++ "') has an invalid executable path".toList)
    | some text =>
      if environment.platform = .gccLike ∧ !separated then
        let resolved := environment.resolvePathExecutable selection.executable
        .ok (if resolved = [] then text else resolved)
      else .ok text
  else if environment.platform = .gccLike then
    let resolved := environment.resolvePathExecutable selection.executable
    .ok (if resolved = [] then selection.executable else resolved)
  else .ok selection.executable

/-! ### Messages -/

def stdToString (value : Int) : Text :=
  if value < 0 then '-' :: Nat.toDigits 10 value.natAbs else Nat.toDigits 10 value.natAbs

def outputPathFailure (message outputPath : Text) : Text := message ++ " for '".toList ++ outputPath ++ ['\'']

def processFailure (selection : CompilerSelection) (process : ProcessResult) : Text :=
  let error := "compiler selected from ".toList ++ selection.configuration.name ++ " ('".toList ++
    selection.executable ++ "') ".toList
  let error :=
    if !process.started then
      error ++ "could not be started".toList ++ " (OS error ".toList ++ stdToString process.startError ++ [')']
    else if process.terminated then error ++ "was terminated".toList
    else error ++ "exited with status ".toList ++ stdToString process.exitCode
  if process.output = [] then error
  else ((error ++ ": ".toList ++ process.output).reverse.dropWhile fun last => last == '\n' || last == '\r').reverse

/-! ### Reserving, writing and running -/

/-- `suffix` at the first attempt, then with the attempt's number behind it. -/
def numbered (suffix : Text) (attempt : Nat) : Text :=
  if attempt = 0 then suffix else suffix ++ '.' :: Nat.toDigits 10 attempt

/-- Create the first path of a series that does not exist yet. -/
def createFirst (create : Path → FileSystem → Except FileError FileSystem) (series : Nat → Path) :
    Nat → Nat → Disk → Option Path × Disk
  | 0,_,disk => (none,disk)
  | left + 1,attempt,disk =>
    let made := disk.call (create (series attempt))
    match made.1 with
    | none => (some (series attempt),made.2)
    | some .exists => createFirst create series left (attempt + 1) made.2
    | some .other => (none,made.2)

def temporaryDirectoryName (output : OutputPath) (attempt : Nat) : Path :=
  output.beside (numbered ".bennu-build.tmp".toList attempt)

def compilerWorkspaceName (environment : BuildEnvironment) (root : Path) (attempt : Nat) : Path :=
  ("bennu-build-".toList ++ Nat.toDigits 10 environment.processId ++ '-' :: Nat.toDigits 10 environment.tickCount ++
    '-' :: Nat.toDigits 10 attempt) :: root

/-- The compiler's workspace: a directory of its own on Windows only. -/
def createCompilerWorkspace (environment : BuildEnvironment) (temporary : Path) (disk : Disk) : Option Path × Disk :=
  match environment.platform with
  | .gccLike => (some temporary,disk)
  | .windowsMsvc => match environment.temporaryDirectory with
    | none => (none,disk)
    | some root => createFirst createDirectory (compilerWorkspaceName environment root) 100 0 disk

def writeBytes (path : Path) (bytes : Text) (disk : Disk) : Bool × Disk :=
  let opened := disk.call (openTruncated path)
  match opened.1 with
  | some _ => (false,opened.2)
  | none =>
    let written := opened.2.call (write path bytes)
    let closed := written.2.call .ok
    (written.1.isNone && closed.1.isNone,closed.2)

def readProcessOutput (path : Path) (disk : Disk) : Text × Disk :=
  let loaded := disk.query fun files => match files.find path with
    | some (.file _ bytes _) => some (bytes.take 4096)
    | _ => none
  (loaded.1.getD [],loaded.2)

/-- What a process prints reaches the log it was given. -/
def printTo (log : Path) (printed : Text) (files : FileSystem) : FileSystem :=
  match write log printed files with
  | .ok files => files
  | .error _ => files

def runProcess (environment : BuildEnvironment) (executable : Text) (arguments : List Text)
    (workingDirectory logPath : Path) (disk : Disk) : ProcessResult × Disk :=
  let log := disk.call (openTruncated logPath)
  match log.1 with
  | some error => (⟨false,false,0,environment.errorNumber error,[]⟩,log.2)
  | none => match environment.compiler executable arguments workingDirectory log.2.files with
    | .refused startError => (⟨false,false,0,startError,[]⟩,log.2)
    | .ran changes printed started terminated exitCode startError =>
      let files := (printTo logPath printed log.2.files).applyAll workingDirectory changes
      let output := readProcessOutput logPath { log.2 with files }
      (⟨started,terminated,exitCode,startError,output.1⟩,output.2)

/-- `replace_output` and `replace_file`. -/
def replaceOutput (temporary output : Path) (disk : Disk) : Bool × Disk :=
  let renamed := disk.call (rename temporary output)
  (renamed.1.isNone,renamed.2)

def reserveReplacementPath (path : Path) (disk : Disk) : Bool × Disk :=
  let opened := disk.call (createExclusive path)
  match opened.1 with
  | some _ => (false,opened.2)
  | none =>
    let closed := opened.2.call .ok
    match closed.1 with
    | some _ => (false,(closed.2.discard (remove path)).2)
    | none => (true,closed.2)

/-- Remove the build directory and a compiler workspace of its own; whether both are gone. -/
def cleanWorkspaces (temporary compilerWorkspace : Path) (disk : Disk) : Bool × Disk :=
  let first := if compilerWorkspace ≠ temporary then disk.discard (removeAll compilerWorkspace) else (true,disk)
  let second := first.2.discard (removeAll temporary)
  (first.1 && second.1,second.2)

def failureWithCleanup (temporary compilerWorkspace : Path) (message : Text) (disk : Disk) :
    NativeBuildResult × Disk :=
  let cleaned := cleanWorkspaces temporary compilerWorkspace disk
  (⟨false,if cleaned.1 then message
    else message ++ "; unable to clean isolated build temporary directory".toList⟩,cleaned.2)

def isUsableNativeOutput (platform : NativePlatform) (path : Path) (disk : Disk) : Bool × Disk :=
  let status := disk.query fun files => files.find path
  match status.1 with
  | some (.file ..) => match platform with
    | .windowsMsvc => (true,status.2)
    | .gccLike =>
      let access := status.2.query fun files => match files.find path with
        | some (.file _ _ true) => some ()
        | _ => none
      (access.1.isSome,access.2)
  | _ => (false,status.2)

/-! ### Building -/

def programName (platform : NativePlatform) : Text :=
  match platform with
  | .windowsMsvc => "program.exe".toList
  | .gccLike => "program".toList

/-- A path in the workspace as the compiler is told it. -/
def compilerArgument (environment : BuildEnvironment) (style : NativePlatform) (name : Text) (workspace : Path) :
    Option Text :=
  match style with
  | .windowsMsvc => some name
  | .gccLike => environment.pathToUtf8 (name :: workspace)

/-- How far the compilation came: the error that ends the build, and the file that the compiler
left as its output. -/
structure Compilation where
  error : Option Text
  produced : Option Entry
  disk : Disk

/-- From the C source to the staged output. -/
def compileNative (environment : BuildEnvironment) (request : NativeBuildRequest) (selection : CompilerSelection)
    (launch : Text) (temporary workspace : Path) (disk : Disk) : Compilation :=
  let cSource := "program.c".toList
  let program := programName environment.platform
  let compilerOutput := program :: workspace
  let stagingOutput := program :: temporary
  let compilerLog := "compiler.log".toList :: temporary
  let written := writeBytes (cSource :: workspace) request.cSource disk
  if !written.1 then
    ⟨some (outputPathFailure "unable to write temporary C source".toList request.outputPath),none,written.2⟩
  else
    let style := compilerPlatform environment.platform selection.executable
    match compilerArgument environment style cSource workspace,
        compilerArgument environment style program workspace with
    | some cSourceText,some outputText =>
      let arguments := makeCCompilerArguments environment.platform selection.executable cSourceText outputText
      let process := runProcess environment launch arguments workspace compilerLog written.2
      let produced := match process.2.files.find compilerOutput with
        | some (.file identity bytes executable) => some (.file identity bytes executable)
        | _ => none
      if !process.1.started ∨ process.1.terminated ∨ process.1.exitCode ≠ 0 then
        ⟨some (processFailure selection process.1),produced,process.2⟩
      else
        let usable := isUsableNativeOutput environment.platform compilerOutput process.2
        if !usable.1 then
          ⟨some ("compiler selected from ".toList ++ selection.configuration.name ++ " ('".toList ++
            selection.executable ++ "') reported success without producing usable native output".toList),produced,
            usable.2⟩
        else if compilerOutput ≠ stagingOutput then
          let copied := usable.2.call (copy compilerOutput stagingOutput)
          match copied.1 with
          | some _ => ⟨some (outputPathFailure "unable to stage compiled native output".toList request.outputPath),
              produced,copied.2⟩
          | none => ⟨none,produced,copied.2⟩
        else ⟨none,produced,usable.2⟩
    | _,_ => ⟨some "unable to encode compiler paths as UTF-8".toList,none,written.2⟩

/-- Move the staged output to the first reserved name beside the output path. -/
def stageReplacement (output : OutputPath) (stagingOutput : Path) : Nat → Nat → Disk → Option Path × Disk
  | 0,_,disk => (none,disk)
  | left + 1,attempt,disk =>
    let candidate := output.beside (numbered ".bennu-native.tmp".toList attempt)
    let reserved := reserveReplacementPath candidate disk
    if reserved.1 then
      let replaced := replaceOutput stagingOutput candidate reserved.2
      if replaced.1 then (some candidate,replaced.2)
      else stageReplacement output stagingOutput left (attempt + 1) (replaced.2.discard (remove candidate)).2
    else stageReplacement output stagingOutput left (attempt + 1) reserved.2

/-- The last error paths remove the replacement and say when they cannot. -/
def failureWithReplacement (replacement : Path) (message : Text) (disk : Disk) : NativeBuildResult × Disk :=
  let removed := disk.discard (remove replacement)
  (⟨false,if removed.1 then message else message ++ "; unable to remove staged native output".toList⟩,removed.2)

def publishReplacement (output : OutputPath) (request : NativeBuildRequest) (temporary workspace replacement : Path)
    (disk : Disk) : NativeBuildResult × Disk :=
  let cleaned := cleanWorkspaces temporary workspace disk
  if !cleaned.1 then
    failureWithReplacement replacement
      (outputPathFailure "unable to clean isolated build temporary directory".toList request.outputPath) cleaned.2
  else
    let replaced := replaceOutput replacement output.location cleaned.2
    if !replaced.1 then
      failureWithReplacement replacement
        (outputPathFailure "unable to replace native output".toList request.outputPath) replaced.2
    else (⟨true,[]⟩,replaced.2)

/-- What `build_native` returns, what the compiler left as its output, and the files after it. -/
structure NativeBuild where
  result : NativeBuildResult
  produced : Option Entry
  disk : Disk

/-- `build_native` once the build directory exists. -/
def buildInDirectory (environment : BuildEnvironment) (request : NativeBuildRequest) (selection : CompilerSelection)
    (launch : Text) (output : OutputPath) (temporary : Path) (disk : Disk) : NativeBuild :=
  let workspace := createCompilerWorkspace environment temporary disk
  match workspace.1 with
  | none =>
    let failed := failureWithCleanup temporary temporary
      (outputPathFailure "unable to create compiler temporary directory".toList request.outputPath) workspace.2
    ⟨failed.1,none,failed.2⟩
  | some compilerWorkspace =>
    let compiled := compileNative environment request selection launch temporary compilerWorkspace workspace.2
    match compiled.error with
    | some message =>
      let failed := failureWithCleanup temporary compilerWorkspace message compiled.disk
      ⟨failed.1,compiled.produced,failed.2⟩
    | none =>
      let staged := stageReplacement output (programName environment.platform :: temporary) 100 0 compiled.disk
      match staged.1 with
      | none =>
        let failed := failureWithCleanup temporary compilerWorkspace
          (outputPathFailure "unable to stage compiled native output".toList request.outputPath) staged.2
        ⟨failed.1,compiled.produced,failed.2⟩
      | some replacement =>
        let published := publishReplacement output request temporary compilerWorkspace replacement staged.2
        ⟨published.1,compiled.produced,published.2⟩

def buildNative (environment : BuildEnvironment) (request : NativeBuildRequest) (disk : Disk) : NativeBuild :=
  let selection := selectCCompiler environment request.explicitCompiler request.environmentCompiler
  if !selection.ok then ⟨⟨false,selection.error⟩,none,disk⟩
  else match launchExecutable environment selection with
    | .error message => ⟨⟨false,message⟩,none,disk⟩
    | .ok launch =>
      let unprepared := outputPathFailure "unable to prepare native output path".toList request.outputPath
      match environment.outputPath request.outputPath with
      | none => ⟨⟨false,unprepared⟩,none,disk⟩
      | some output =>
        if output.filename = [] then ⟨⟨false,unprepared⟩,none,disk⟩
        else
          let made := createFirst createDirectory (temporaryDirectoryName output) 100 0 disk
          match made.1 with
          | none => ⟨⟨false,outputPathFailure "unable to create isolated build temporary directory".toList
              request.outputPath⟩,none,made.2⟩
          | some temporary => buildInDirectory environment request selection launch output temporary made.2

/-- The path that `build_native` publishes; without a usable one there is nothing to publish. -/
def BuildEnvironment.publishedPath (environment : BuildEnvironment) (request : NativeBuildRequest) : Path :=
  match environment.outputPath request.outputPath with
  | some output => output.location
  | none => []

/-- The Windows directory that the compiler works in may have the output path's own name. -/
def BuildEnvironment.MayTake (environment : BuildEnvironment) (location : Path) : Prop :=
  environment.platform = .windowsMsvc ∧ ∃ root, environment.temporaryDirectory = some root ∧
    ∃ attempt < 100, location = compilerWorkspaceName environment root attempt

/-- What there is to publish: the file that the compiler left, or on Windows a new file with its
bytes. -/
def BuildEnvironment.Delivers (environment : BuildEnvironment) (before : FileSystem) (produced : Option Entry)
    (entry : Entry) : Prop :=
  ∃ identity placed bytes executable, produced = some (.file identity bytes executable) ∧
    entry = .file placed bytes executable ∧ match environment.platform with
      | .gccLike => placed = identity
      | .windowsMsvc => before.nextIdentity ≤ placed

/-- The compiler may have left its output as a link to the very file at the output path. -/
def BuildEnvironment.Linked (environment : BuildEnvironment) (before : FileSystem) (location : Path)
    (produced : Option Entry) : Prop :=
  environment.platform = .gccLike ∧ produced.isSome ∧ before.find location = produced

/-! ### Writing a file -/

def temporaryFileName (output : OutputPath) (attempt : Nat) : Path := output.beside (numbered ".tmp".toList attempt)

/-- Write and publish through a file that has been created. -/
def writeThrough (output : OutputPath) (temporary : Path) (contents : Text) (disk : Disk) : Bool × Disk :=
  let opened := disk.call .ok
  match opened.1 with
  | some _ => (false,((opened.2.call .ok).2.discard (remove temporary)).2)
  | none =>
    let written := opened.2.call (write temporary contents)
    let closed := written.2.call .ok
    if written.1.isSome || closed.1.isSome then (false,(closed.2.discard (remove temporary)).2)
    else
      let replaced := replaceOutput temporary output.location closed.2
      if !replaced.1 then (false,(replaced.2.discard (remove temporary)).2)
      else (true,replaced.2)

/-- `converted` is the output path as `path_for_io_from_utf8` reads it. -/
def writeFileAtomically (converted : Option OutputPath) (contents : Text) (disk : Disk) : Bool × Disk :=
  match converted with
  | none => (false,disk)
  | some output =>
    let made := createFirst createExclusive (temporaryFileName output) 100 0 disk
    match made.1 with
    | none => (false,made.2)
    | some temporary => writeThrough output temporary contents made.2

/-! ### What each step leaves -/

section steps

variable {before : FileSystem} {location path inner : Path} {excuse alien : Prop} {live : Set Path} {disk : Disk}

theorem createFirst_cases (create : Path → FileSystem → Except FileError FileSystem) (series : Nat → Path)
    (left : Nat) : ∀ attempt (disk : Disk),
    (∃ calls, createFirst create series left attempt disk = (none,{ disk with calls })) ∨
    ∃ chosen files calls, chosen < attempt + left ∧ create (series chosen) disk.files = .ok files ∧
      createFirst create series left attempt disk = (some (series chosen),{ disk with calls, files }) := by
  induction left with
  | zero => exact fun _ disk => .inl ⟨disk.calls,rfl⟩
  | succ left ih =>
    intro attempt disk
    unfold createFirst
    dsimp only
    rcases Disk.call_cases disk (create (series attempt)) with ⟨error,failed⟩ | ⟨files,made,same⟩
    · rw [failed]
      cases error with
      | other => exact .inl ⟨_,rfl⟩
      | «exists» =>
        rcases ih (attempt + 1) { disk with calls := disk.calls + 1 } with ⟨calls,none⟩ | ⟨chosen,files,calls,inside,made,same⟩
        · exact .inl ⟨calls,none⟩
        · exact .inr ⟨chosen,files,calls,by omega,made,same⟩
    · rw [same]
      exact .inr ⟨attempt,files,_,by omega,made,rfl⟩

theorem writeBytes_holding (holding : disk.Holding before location excuse alien live) (peaceful : ¬alien)
    (member : inner ∈ live) (below : inner <:+ path) (bytes : Text) : (writeBytes path bytes disk).2.Holding before location excuse alien live := by
  have opened := holding.call fun files => holding.opened peaceful member below
  unfold writeBytes
  dsimp only
  split
  · exact opened
  · have written := opened.call fun files (done : write path bytes _ = .ok files) =>
      opened.rewritten peaceful member below done
    exact written.call fun files same => by cases same; exact written

theorem printTo_holding {log : Path} (holding : disk.Holding before location excuse alien live) (peaceful : ¬alien)
    (member : inner ∈ live) (below : inner <:+ log) (printed : Text) :
    ({ disk with files := printTo log printed disk.files } : Disk).Holding before location excuse alien live := by
  unfold printTo
  split
  · rename_i files logged
    exact holding.rewritten peaceful member below logged
  · exact holding

theorem runProcess_holding (environment : BuildEnvironment) (executable : Text) (arguments : List Text)
    {workspace log : Path} (holding : disk.Holding before location excuse alien live) (peaceful : ¬alien)
    (works : workspace ∈ live) (member : inner ∈ live) (below : inner <:+ log) :
    (runProcess environment executable arguments workspace log disk).2.Holding before location excuse True live := by
  have opened := holding.call fun files => holding.opened peaceful member below
  unfold runProcess
  dsimp only
  split
  · exact opened.invaded trivial
  split
  · exact opened.invaded trivial
  · rename_i changes printed _ _ _ _ _
    exact (((printTo_holding opened peaceful member below printed).invaded trivial).applied trivial works changes).query _

theorem isUsableNativeOutput_cases (platform : NativePlatform) (path : Path) (disk : Disk) :
    (∃ calls, (isUsableNativeOutput platform path disk).2 = { disk with calls }) ∧
    ((isUsableNativeOutput platform path disk).1 = true →
      ∃ identity bytes executable, disk.files.find path = some (.file identity bytes executable)) := by
  unfold isUsableNativeOutput
  dsimp only
  rcases Disk.query_cases disk fun files => files.find path with failed | looked
  · rw [failed]
    exact ⟨⟨_,rfl⟩,nofun⟩
  · rw [looked]
    dsimp only
    split
    · rename_i found
      refine ⟨?_,fun _ => ⟨_,_,_,found⟩⟩
      cases platform with
      | windowsMsvc => exact ⟨_,rfl⟩
      | gccLike =>
        rcases Disk.query_cases { disk with calls := disk.calls + 1 } (fun files => match files.find path with
          | some (.file _ _ true) => some ()
          | _ => none) with failed | accessed
        · rw [failed]
          exact ⟨_,rfl⟩
        · rw [accessed]
          exact ⟨_,rfl⟩
    · exact ⟨⟨_,rfl⟩,nofun⟩

/-- Success leaves something under the name that the compiler was given, and stages what is to
be published. -/
def Compilation.Staged (compiled : Compilation) (environment : BuildEnvironment) (before : FileSystem)
    (compilerOutput stagingOutput : Path) : Prop :=
  (∃ entry, compiled.disk.files.find compilerOutput = some entry) ∧
  ∃ identity bytes executable, compiled.disk.files.find stagingOutput = some (.file identity bytes executable) ∧
    environment.Delivers before compiled.produced (.file identity bytes executable)

theorem compileNative_leaves (environment : BuildEnvironment) (request : NativeBuildRequest)
    (selection : CompilerSelection) (launch : Text) {temporary workspace : Path}
    (holding : disk.Holding before location excuse alien live) (peaceful : ¬alien) (owns : temporary ∈ live)
    (works : workspace ∈ live) (shared : environment.platform = .gccLike ↔ workspace = temporary) :
    let compiled := compileNative environment request selection launch temporary workspace disk
    compiled.disk.Holding before location excuse True live ∧
      (compiled.error = none → compiled.Staged environment before (programName environment.platform :: workspace)
        (programName environment.platform :: temporary)) := by
  intro compiled
  have inside (name : Text) (directory : Path) : directory <:+ name :: directory := List.suffix_cons ..
  have written := writeBytes_holding holding peaceful works (inside "program.c".toList workspace) request.cSource
  unfold compiled compileNative
  dsimp only
  split
  · exact ⟨written.invaded trivial,nofun⟩
  split
  · rename_i source text _ _
    have ran := runProcess_holding environment launch (makeCCompilerArguments environment.platform
      selection.executable source text) written peaceful works owns (inside "compiler.log".toList temporary)
    generalize runProcess environment launch _ workspace _ _ = process at ran ⊢
    split
    · exact ⟨ran,nofun⟩
    obtain ⟨⟨calls,looked⟩,usable⟩ := isUsableNativeOutput_cases environment.platform
      (programName environment.platform :: workspace) process.2
    have seen : ({ process.2 with calls } : Disk).Holding before location excuse True live := ran.same rfl rfl
    rw [looked]
    split
    · exact ⟨seen,nofun⟩
    rename_i answer
    obtain ⟨identity,bytes,executable,found⟩ := usable (by simpa using answer)
    rw [found]
    split
    · rename_i apart
      have windows : environment.platform = .windowsMsvc := by
        cases platform : environment.platform with
        | windowsMsvc => rfl
        | gccLike => exact absurd (by rw [shared.mp platform]) apart
      split
      · exact ⟨seen.call fun files => seen.copied owns (inside (programName environment.platform) temporary),nofun⟩
      · rename_i fine
        refine ⟨seen.call fun files => seen.copied owns (inside (programName environment.platform) temporary),fun _ => ?_⟩
        rcases Disk.call_cases _ (copy (programName environment.platform :: workspace)
          (programName environment.platform :: temporary)) with ⟨error,failed⟩ | ⟨files,done,same⟩
        · rw [failed] at fine
          cases fine
        · obtain ⟨absent,_,_,_,source,writes⟩ := copy_ok done
          rw [found] at source
          cases source
          refine ⟨⟨.file identity bytes executable,?_⟩,process.2.files.nextIdentity,bytes,executable,?_,
            identity,_,bytes,executable,rfl,rfl,?_⟩
          · rw [same]
            exact (writes.apart apart).trans found
          · rw [same]
            exact writes.here
          · rw [windows]
            exact seen.grown
    · rename_i one
      have gcc : environment.platform = .gccLike := shared.mpr (List.cons.inj (not_not.mp one)).2
      refine ⟨seen,fun _ => ⟨⟨_,found⟩,identity,bytes,executable,?_,identity,identity,bytes,executable,rfl,rfl,?_⟩⟩
      · rw [← not_not.mp one]
        exact found
      · rw [gcc]
  · exact ⟨written.invaded trivial,nofun⟩

/-- A file in use that is removed, or stays behind; nothing else is touched. -/
theorem discardFile_leaves {bytes : Text} {identity : Nat} {executable : Bool}
    (holding : disk.Holding before location excuse alien (insert path live)) (new : path ∉ live)
    (found : disk.files.find path = some (.file identity bytes executable)) :
    (disk.discard (remove path)).2.Holding before location excuse alien live ∧
      ∀ other entry, other ≠ path → disk.files.find other = some entry →
        (disk.discard (remove path)).2.files.find other = some entry := by
  have removed := holding.discard (Set.mem_insert _ _) fun files => remove_ok
  rw [Set.insert_sdiff_self_of_notMem new] at removed
  refine ⟨removed,fun other entry apart stands => ?_⟩
  rcases Disk.discard_cases disk (remove path) with failed | ⟨files,done,same⟩
  · rw [failed]
    exact stands
  · rw [same]
    cases remove_ok done
    exact prune_file found stands apart

theorem reserveReplacementPath_leaves (holding : disk.Holding before location excuse alien live)
    (standing : ∀ path ∈ live, ∃ entry, disk.files.find path = some entry) (clear : ¬path <:+ location) :
    let reserved := reserveReplacementPath path disk
    (∀ other entry, disk.files.find other = some entry → reserved.2.files.find other = some entry) ∧
    ((reserved.1 = false ∧ reserved.2.Holding before location excuse alien live) ∨
      reserved.1 = true ∧ reserved.2.Holding before location excuse alien (insert path live) ∧
        path ∉ live ∧ disk.files.find path = none ∧
        reserved.2.files.find path = some (.file disk.files.nextIdentity [] false)) := by
  intro reserved
  unfold reserved reserveReplacementPath
  dsimp only
  rcases Disk.call_cases disk (createExclusive path) with ⟨error,failed⟩ | ⟨files,made,opened⟩
  · rw [failed]
    exact ⟨fun _ _ stands => stands,.inl ⟨rfl,holding.same rfl rfl⟩⟩
  · rw [opened]
    obtain ⟨absent,-,writes⟩ := createExclusive_ok made
    have new : path ∉ live := by
      intro member
      obtain ⟨entry,stands⟩ := standing path member
      rw [absent] at stands
      cases stands
    have stays {other : Path} {entry : Entry} (stands : disk.files.find other = some entry) :
        other ≠ path ∧ files.find other = some entry := by
      have apart : other ≠ path := by
        rintro rfl
        rw [absent] at stands
        cases stands
      exact ⟨apart,(writes.apart apart).trans stands⟩
    have held : ({ disk with calls := disk.calls + 1, files } : Disk).Holding before location excuse alien (insert path live) :=
      holding.reserve absent writes (fun _ => holding.new_young [] false) rfl fun above => absurd above clear
    dsimp only
    rcases Disk.call_cases { disk with calls := disk.calls + 1, files } .ok with ⟨error,failed⟩ | ⟨later,done,closed⟩
    · rw [failed]
      have again : ({ disk with calls := disk.calls + 1 + 1, files } : Disk).Holding before location excuse alien
          (insert path live) := held.same rfl rfl
      obtain ⟨dropped,kept⟩ := discardFile_leaves again new writes.here
      exact ⟨fun other entry stands => kept other entry (stays stands).1 (stays stands).2,.inl ⟨rfl,dropped⟩⟩
    · rw [closed]
      cases done
      exact ⟨fun other entry stands => (stays stands).2,.inr ⟨rfl,held.same rfl rfl,new,absent,writes.here⟩⟩

/-- Each attempt that fails leaves the staged file where it is. -/
theorem stageReplacement_leaves {output : OutputPath} {staging : Path} {identity : Nat} {bytes : Text}
    {executable : Bool} (owns : inner ∈ live) (below : inner <:+ staging) (apart : inner ≠ staging)
    (clear : ∀ suffix, suffix ≠ [] → ¬output.beside suffix <:+ location) (left : Nat) :
    ∀ attempt (disk : Disk), disk.Holding before location excuse alien live →
      (∀ path ∈ live, ∃ entry, disk.files.find path = some entry) →
      disk.files.find staging = some (.file identity bytes executable) →
      let staged := stageReplacement output staging left attempt disk
      (staged.1 = none ∧ staged.2.Holding before location excuse alien live) ∨
      ∃ suffix, staged.1 = some (output.beside suffix) ∧ output.beside suffix ∉ live ∧
        staged.2.Holding before location excuse alien (insert (output.beside suffix) live) ∧
        staged.2.files.find (output.beside suffix) = some (.file identity bytes executable) := by
  induction left with
  | zero => exact fun _ disk holding _ _ => .inl ⟨rfl,holding⟩
  | succ left ih =>
    intro attempt disk holding standing found
    unfold stageReplacement
    dsimp only
    generalize named : numbered ".bennu-native.tmp".toList attempt = suffix
    have named_ne : suffix ≠ [] := by
      subst named
      unfold numbered
      split <;> simp
    obtain ⟨stays,⟨refused,held⟩ | ⟨granted,held,new,absent,reserved⟩⟩ :=
      reserveReplacementPath_leaves holding standing (clear suffix named_ne)
    · rw [refused]
      refine ih (attempt + 1) _ held (fun path member => ?_) (stays _ _ found)
      obtain ⟨entry,stands⟩ := standing path member
      exact ⟨entry,stays path entry stands⟩
    · rw [granted]
      have source := stays _ _ found
      generalize (reserveReplacementPath (output.beside suffix) disk).2 = disk' at *
      unfold replaceOutput
      dsimp only
      rcases Disk.call_cases disk' (rename staging (output.beside suffix)) with ⟨error,failed⟩ | ⟨files,renamed,same⟩
      · rw [failed]
        have again : ({ disk' with calls := disk'.calls + 1 } : Disk).Holding before location excuse alien
            (insert (output.beside suffix) live) := held.same rfl rfl
        obtain ⟨dropped,kept⟩ := discardFile_leaves again new reserved
        have survives {path : Path} {entry : Entry} (stands : disk.files.find path = some entry) :=
          kept path entry (fun same => by rw [same,absent] at stands; cases stands) (stays path entry stands)
        refine ih (attempt + 1) _ dropped (fun path member => ?_) (survives found)
        obtain ⟨entry,stands⟩ := standing path member
        exact ⟨entry,survives stands⟩
      · rw [same]
        have moves : ({ disk' with calls := disk'.calls + 1, files } : Disk).Holding before location excuse alien
            (insert (output.beside suffix) live) :=
          held.move (Set.mem_insert_of_mem _ owns) below apart (Set.mem_insert ..) renamed rfl
        refine .inr ⟨suffix,rfl,new,moves,?_⟩
        obtain ⟨_,_,_,moved,⟨one,-⟩ | ⟨-,-,writes⟩⟩ := rename_ok renamed
        · -- the reserved file is newer than the staged one
          rw [source] at moved
          cases moved
          rw [reserved] at one
          cases one
          exact absurd (disk.files.issued staging _ _ found rfl) (Nat.lt_irrefl _)
        · rw [source] at moved
          cases moved
          exact writes.here

theorem discardAll_leaves (holding : disk.Holding before location excuse alien live) (member : path ∈ live) :
    (disk.discard (removeAll path)).2.Holding before location excuse alien (live \ {path}) ∧
      ∀ other, ¬path <:+ other → (disk.discard (removeAll path)).2.files.find other = disk.files.find other := by
  have prunes (files : FileSystem) (done : removeAll path disk.files = .ok files) : files = disk.files.prune path := by
    cases done
    rfl
  refine ⟨holding.discard member prunes,fun other outside => ?_⟩
  rcases Disk.discard_cases disk (removeAll path) with failed | ⟨files,done,same⟩
  · rw [failed]
  · rw [same,prunes files done,find_prune,if_neg outside]

theorem cleanWorkspaces_leaves (temporary workspace : Path) (holding : disk.Holding before location excuse alien live)
    (owns : temporary ∈ live) (works : workspace ∈ live) :
    (cleanWorkspaces temporary workspace disk).2.Holding before location excuse alien (live \ {workspace,temporary}) ∧
      ∀ other, ¬temporary <:+ other → ¬workspace <:+ other →
        (cleanWorkspaces temporary workspace disk).2.files.find other = disk.files.find other := by
  unfold cleanWorkspaces
  dsimp only
  split
  · rename_i apart
    obtain ⟨first,kept⟩ := discardAll_leaves holding works
    have still : temporary ∈ live \ {workspace} := ⟨owns,fun one => apart one.symm⟩
    obtain ⟨second,same⟩ := discardAll_leaves first still
    rw [Set.sdiff_sdiff,Set.singleton_union] at second
    exact ⟨second,fun other outside beyond => (same other outside).trans (kept other beyond)⟩
  · rename_i one
    obtain rfl := not_not.mp one
    rw [Set.pair_eq_singleton]
    obtain ⟨cleaned,kept⟩ := discardAll_leaves holding works
    exact ⟨cleaned,fun other outside _ => kept other outside⟩

end steps

/-! ### Publication -/

/-- What a call owes that publishes at `location` a file that is `produced`: success says that the
location names such a file now, failure that nothing has changed there, and whatever else there
was is as it was. Without a failed removal nothing else is left either. Under the excuse a
failed removal may leave a directory at a location that named nothing. Where the file produced
is linked, the location named it already; then a success has left it a name of its own. -/
structure Publishes (before : FileSystem) (location : Path) (produced : Entry → Prop) (excuse linked : Prop)
    (ok : Bool) (disk : Disk) : Prop where
  published : ok = true → ∃ entry, disk.files.find location = some entry ∧ produced entry
  only : ¬linked → (∃ entry, disk.files.find location = some entry ∧ produced entry) → ok = true
  unpublished : ok = false → disk.files.find location = before.find location ∨
    excuse ∧ disk.removalFailed = true ∧ before.find location = none ∧ disk.files.find location = some .directory
  others : ∀ path, path ≠ location → before.find path ≠ none → disk.files.find path = before.find path
  clean : disk.removalFailed = false → ¬(linked ∧ ok = true) →
    ∀ path, path ≠ location → disk.files.find path = before.find path
  named : disk.removalFailed = false → linked → ok = true →
    ∃ left, before.find left = none ∧ disk.files.find left = before.find location ∧
      ∀ path, path ≠ left → disk.files.find path = before.find path

/-- A file is produced that is linked exactly when the location names it before. -/
structure Aims (before : FileSystem) (location : Path) (produced : Entry → Prop) (linked : Prop) : Prop where
  named : linked → ∀ entry, produced entry → before.find location = some entry
  unlinked : ∀ entry, produced entry → before.find location = some entry → linked
  file : ∀ entry, produced entry → entry ≠ .directory

theorem BuildEnvironment.aims (environment : BuildEnvironment) (before : FileSystem) (location : Path)
    (produced : Option Entry) : Aims before location (environment.Delivers before produced)
      (environment.Linked before location produced) where
  named := by
    rintro ⟨gcc,-,names⟩ entry ⟨identity,placed,bytes,executable,same,rfl,kept⟩
    rw [gcc] at kept
    obtain rfl : placed = identity := kept
    exact names.trans same
  unlinked := by
    rintro entry ⟨identity,placed,bytes,executable,same,rfl,kept⟩ names
    cases platform : environment.platform with
    | gccLike =>
      rw [platform] at kept
      obtain rfl : placed = identity := kept
      exact ⟨platform,by rw [same]; rfl,names.trans same.symm⟩
    | windowsMsvc =>
      rw [platform] at kept
      exact absurd (before.issued location _ placed names rfl) (Nat.not_lt_of_le kept)
  file := by
    rintro entry ⟨_,_,_,_,-,rfl,-⟩
    exact Entry.noConfusion

/-- A new file with these contents. -/
def NewFile (before : FileSystem) (contents : Text) (entry : Entry) : Prop :=
  ∃ identity executable, entry = .file identity contents executable ∧ before.nextIdentity ≤ identity

theorem newFile_aims (before : FileSystem) (location : Path) (contents : Text) :
    Aims before location (NewFile before contents) False where
  named := False.elim
  unlinked := by
    rintro entry ⟨identity,executable,rfl,young⟩ names
    exact absurd (before.issued location _ identity names rfl) (Nat.not_lt_of_le young)
  file := by
    rintro entry ⟨_,_,rfl,-⟩
    exact Entry.noConfusion

section publication

variable {before : FileSystem} {location path : Path} {produced : Entry → Prop} {excuse linked alien : Prop}
variable {disk : Disk}

theorem Publishes.failed (holding : disk.Holding before location excuse alien ∅)
    (aims : Aims before location produced linked) : Publishes before location produced excuse linked false disk := by
  refine ⟨nofun,?_,fun _ => holding.located,fun path _ stands => holding.standing stands,
    fun intact _ path _ => holding.clean intact path,fun _ _ => nofun⟩
  rintro free ⟨entry,found,is⟩
  rcases holding.located with same | ⟨-,-,-,directory⟩
  · rw [same] at found
    exact absurd (aims.unlinked entry is found) free
  · rw [directory] at found
    exact absurd (Option.some.inj found).symm (aims.file entry is)

theorem Publishes.renamed {source : Path} {later : Disk} {entry : Entry}
    (holding : disk.Holding before location excuse alien {source}) (found : disk.files.find source = some entry)
    (is : produced entry) (done : rename source location disk.files = .ok later.files)
    (removal : later.removalFailed = disk.removalFailed) (aims : Aims before location produced linked) :
    Publishes before location produced excuse linked true later := by
  obtain ⟨here,others,moved,still⟩ := holding.publish found done removal
  refine ⟨fun _ => ⟨entry,here,is⟩,fun _ _ => rfl,nofun,others,
    fun intact free => moved (fun one => free ⟨aims.unlinked entry is one,rfl⟩) intact,fun intact link _ => ?_⟩
  have one := aims.named link entry is
  obtain ⟨left,kept⟩ := still one
  exact ⟨source,holding.absent rfl,left.trans one.symm,kept intact⟩

/-- The file in use is given up. -/
theorem discardFile_publishes (holding : disk.Holding before location excuse alien {path})
    (found : ∃ identity bytes executable, disk.files.find path = some (.file identity bytes executable))
    (aims : Aims before location produced linked) :
    Publishes before location produced excuse linked false (disk.discard (remove path)).2 := by
  obtain ⟨identity,bytes,executable,found⟩ := found
  have alone : disk.Holding before location excuse alien (insert path ∅) := by simpa using holding
  exact .failed (discardFile_leaves alone (Set.notMem_empty _) found).1 aims

theorem publishReplacement_publishes {output : OutputPath} {temporary workspace replacement : Path} {identity : Nat}
    {bytes : Text} {executable : Bool} (request : NativeBuildRequest)
    (holding : disk.Holding before output.location excuse alien (insert replacement {workspace,temporary}))
    (new : replacement ∉ ({workspace,temporary} : Set Path)) (outside : ¬temporary <:+ replacement)
    (beyond : ¬workspace <:+ replacement)
    (found : disk.files.find replacement = some (.file identity bytes executable))
    (is : produced (.file identity bytes executable)) (aims : Aims before output.location produced linked) :
    Publishes before output.location produced excuse linked
      (publishReplacement output request temporary workspace replacement disk).1.ok
      (publishReplacement output request temporary workspace replacement disk).2 := by
  obtain ⟨cleaned,same⟩ := cleanWorkspaces_leaves temporary workspace holding (by simp) (by simp)
  rw [Set.insert_sdiff_of_notMem _ new,Set.sdiff_self,insert_empty_eq] at cleaned
  have source := (same replacement outside beyond).trans found
  unfold publishReplacement
  dsimp only
  split
  · exact discardFile_publishes cleaned ⟨_,_,_,source⟩ aims
  unfold replaceOutput
  dsimp only
  generalize (cleanWorkspaces temporary workspace disk).2 = disk' at cleaned source ⊢
  rcases Disk.call_cases disk' (rename replacement output.location) with ⟨error,failed⟩ | ⟨files,done,same⟩
  · rw [failed]
    have still : ({ disk' with calls := disk'.calls + 1 } : Disk).Holding before output.location excuse alien
        {replacement} := cleaned.same rfl rfl
    exact discardFile_publishes still ⟨_,_,_,source⟩ aims
  · rw [same]
    exact .renamed cleaned source is done rfl aims

theorem failureWithCleanup_publishes {temporary workspace : Path}
    (holding : disk.Holding before location excuse alien {workspace,temporary}) (message : Text)
    (aims : Aims before location produced linked) :
    Publishes before location produced excuse linked (failureWithCleanup temporary workspace message disk).1.ok
      (failureWithCleanup temporary workspace message disk).2 := by
  obtain ⟨cleaned,-⟩ := cleanWorkspaces_leaves temporary workspace holding (by simp) (by simp)
  rw [Set.sdiff_self] at cleaned
  exact .failed cleaned aims

/-- Nothing beside the output path stands above it. -/
theorem OutputPath.beside_apart (output : OutputPath) {suffix : Text} (some_suffix : suffix ≠ []) :
    ¬output.beside suffix <:+ output.location := by
  intro above
  have longer := above.length_le
  unfold location beside at above longer
  split at above
  · rename_i bare
    rw [if_pos bare,List.length_cons] at longer
    omega
  rename_i bare
  rw [if_neg bare] at longer
  split at above
  · rename_i dots
    rw [if_pos dots,List.length_cons,List.length_tail] at longer
    omega
  · have same := above.eq_of_length_le (by simp)
    simp [some_suffix] at same

theorem OutputPath.above_location {output : OutputPath} {path : Path} (above : path <:+ output.location) :
    path = output.location ∨ path <:+ output.directory := by
  unfold location at above ⊢
  split at above
  · exact .inr above
  · split at above
    · exact .inr (above.trans (List.tail_suffix _))
    · rename_i bare dots
      rw [if_neg bare,if_neg dots]
      exact List.suffix_cons_iff.mp above

theorem numbered_ne_nil {suffix : Text} (some_suffix : suffix ≠ []) (attempt : Nat) : numbered suffix attempt ≠ [] := by
  unfold numbered
  split
  · exact some_suffix
  · simp

/-- The workspace is the build directory, or on Windows a new directory that is held as well. -/
theorem createCompilerWorkspace_leaves (environment : BuildEnvironment) {output : OutputPath} {temporary : Path}
    (housed : before.find output.directory = some .directory) (stands : disk.files.find temporary = some .directory)
    (holding : disk.Holding before output.location (environment.MayTake output.location) alien {temporary}) :
    let made := createCompilerWorkspace environment temporary disk
    (made.1 = none ∧ made.2.Holding before output.location (environment.MayTake output.location) alien {temporary}) ∨
    ∃ workspace, made.1 = some workspace ∧ (environment.platform = .gccLike ↔ workspace = temporary) ∧
      made.2.Holding before output.location (environment.MayTake output.location) alien {workspace,temporary} := by
  intro made
  unfold made createCompilerWorkspace
  split
  · rename_i gcc
    refine .inr ⟨temporary,rfl,⟨fun _ => rfl,fun _ => gcc⟩,?_⟩
    rwa [Set.pair_eq_singleton]
  rename_i windows
  split
  · exact .inl ⟨rfl,holding⟩
  rename_i root rooted
  rcases createFirst_cases createDirectory (compilerWorkspaceName environment root) 100 0 disk with
    ⟨calls,failed⟩ | ⟨chosen,files,calls,inside,created,same⟩
  · rw [failed]
    exact .inl ⟨rfl,holding.same rfl rfl⟩
  · rw [same]
    obtain ⟨absent,-,writes⟩ := createDirectory_ok created
    refine .inr ⟨_,rfl,⟨fun gcc => ?_,fun one => ?_⟩,
      holding.reserve absent writes (fun _ => Entry.directory_young before) rfl fun above => ?_⟩
    · rw [windows] at gcc
      cases gcc
    · rw [← one,absent] at stands
      cases stands
    rcases OutputPath.above_location above with here | inside_directory
    · exact ⟨here,⟨windows,root,rooted,chosen,by omega,here.symm⟩,rfl⟩
    · -- the output's directory was there, and nothing stands below what was not
      rw [find_below (holding.fresh absent) inside_directory] at housed
      cases housed

theorem buildInDirectory_publishes (environment : BuildEnvironment) (request : NativeBuildRequest)
    (selection : CompilerSelection) (launch : Text) {output : OutputPath} {temporary : Path}
    (housed : before.find output.directory = some .directory) (stands : disk.files.find temporary = some .directory)
    (holding : disk.Holding before output.location (environment.MayTake output.location) False {temporary}) :
    let build := buildInDirectory environment request selection launch output temporary disk
    Publishes before output.location (environment.Delivers before build.produced)
      (environment.MayTake output.location) (environment.Linked before output.location build.produced)
      build.result.ok build.disk := by
  intro build
  unfold build buildInDirectory
  dsimp only
  rcases createCompilerWorkspace_leaves environment housed stands holding with
    ⟨none_made,held⟩ | ⟨workspace,made,shared,held⟩
  · rw [none_made]
    rw [← Set.pair_eq_singleton] at held
    exact failureWithCleanup_publishes held _ (environment.aims _ _ _)
  rw [made]
  dsimp only
  have owns : temporary ∈ ({workspace,temporary} : Set Path) := by simp
  have works : workspace ∈ ({workspace,temporary} : Set Path) := by simp
  obtain ⟨compiled,staged⟩ := compileNative_leaves environment request selection launch held id owns works shared
  split
  · exact failureWithCleanup_publishes compiled _ (environment.aims _ _ _)
  rename_i fine
  obtain ⟨⟨_,output_stands⟩,identity,bytes,executable,found,delivers⟩ := staged fine
  have standing : ∀ path ∈ ({workspace,temporary} : Set Path), ∃ entry,
      (compileNative environment request selection launch temporary workspace
        (createCompilerWorkspace environment temporary disk).2).disk.files.find path = some entry := by
    rintro path (rfl | rfl)
    · exact ⟨_,find_parent output_stands⟩
    · exact ⟨_,find_parent found⟩
  have apart : temporary ≠ programName environment.platform :: temporary := (List.cons_ne_self _ _).symm
  rcases stageReplacement_leaves owns (List.suffix_cons ..) apart
      (fun _ => output.beside_apart) 100 0 _ compiled standing found with
    ⟨failed,left⟩ | ⟨suffix,replacement,new,left,moved⟩
  · rw [failed]
    exact failureWithCleanup_publishes left _ (environment.aims _ _ _)
  · rw [replacement]
    have outside {path : Path} (member : path ∈ ({workspace,temporary} : Set Path)) : ¬path <:+ output.beside suffix := by
      intro above
      rcases List.suffix_cons_iff.mp above with same | inside_directory
      · rw [same] at member
        exact new member
      · rw [find_below (left.absent (Set.mem_insert_of_mem _ member)) inside_directory] at housed
        cases housed
    exact publishReplacement_publishes request left new (outside owns) (outside works) moved delivers
      (environment.aims _ _ _)

theorem buildNative_publishes (environment : BuildEnvironment) (request : NativeBuildRequest) (disk : Disk) :
    let build := buildNative environment request disk
    let location := environment.publishedPath request
    Publishes disk.files location (environment.Delivers disk.files build.produced) (environment.MayTake location)
      (environment.Linked disk.files location build.produced) build.result.ok build.disk := by
  intro build location
  have untouched (location : Path) (excuse : Prop) : Publishes disk.files location
      (environment.Delivers disk.files none) excuse (environment.Linked disk.files location none) false disk :=
    .failed (.start False disk) (environment.aims _ _ _)
  unfold build buildNative
  dsimp only
  split
  · exact untouched _ _
  split
  · exact untouched _ _
  unfold location BuildEnvironment.publishedPath
  cases environment.outputPath request.outputPath with
  | none => exact untouched _ _
  | some output =>
  dsimp only
  split
  · exact untouched _ _
  have start : disk.Holding disk.files output.location (environment.MayTake output.location) False ∅ := .start False disk
  rcases createFirst_cases createDirectory (temporaryDirectoryName output) 100 0 disk with
    ⟨calls,failed⟩ | ⟨chosen,files,calls,-,created,same⟩
  · rw [failed]
    have still : ({ disk with calls } : Disk).Holding disk.files output.location
        (environment.MayTake output.location) False ∅ := start.same rfl rfl
    exact .failed still (environment.aims _ _ _)
  · rw [same]
    obtain ⟨absent,housed,writes⟩ := createDirectory_ok created
    have marked : ".bennu-build.tmp".toList ≠ [] := by simp
    have clear := output.beside_apart (numbered_ne_nil marked chosen)
    have held : ({ disk with calls, files } : Disk).Holding disk.files output.location
        (environment.MayTake output.location) False (insert (temporaryDirectoryName output chosen) ∅) :=
      start.reserve absent writes (fun _ => Entry.directory_young disk.files) rfl fun above => absurd above clear
    rw [insert_empty_eq] at held
    exact buildInDirectory_publishes environment request _ _ housed writes.here held

/-- A call that changes no file. -/
theorem call_nothing (disk : Disk) : ∃ error, disk.call .ok = (error,{ disk with calls := disk.calls + 1 }) := by
  rcases Disk.call_cases disk .ok with ⟨error,failed⟩ | ⟨files,done,same⟩
  · exact ⟨_,failed⟩
  · cases done
    exact ⟨_,same⟩

theorem writeThrough_publishes {output : OutputPath} {temporary : Path} {identity : Nat}
    (holding : disk.Holding before output.location excuse False {temporary})
    (found : disk.files.find temporary = some (.file identity [] false)) (contents : Text) :
    Publishes before output.location (NewFile before contents) excuse False
      (writeThrough output temporary contents disk).1 (writeThrough output temporary contents disk).2 := by
  have aims := newFile_aims before output.location contents
  have young : before.nextIdentity ≤ identity :=
    holding.young id rfl (List.suffix_refl _) found identity rfl
  unfold writeThrough
  dsimp only
  obtain ⟨error,opened⟩ := call_nothing disk
  rw [opened]
  cases error with
  | some error =>
    obtain ⟨_,closed⟩ := call_nothing { disk with calls := disk.calls + 1 }
    dsimp only
    rw [closed]
    have still : ({ disk with calls := disk.calls + 1 + 1 } : Disk).Holding before output.location excuse False
        {temporary} := holding.same rfl rfl
    exact discardFile_publishes still ⟨_,_,_,found⟩ aims
  | none =>
    dsimp only
    have held : ({ disk with calls := disk.calls + 1 } : Disk).Holding before output.location excuse False
        {temporary} := holding.same rfl rfl
    have empty : ({ disk with calls := disk.calls + 1 } : Disk).files.find temporary =
        some (.file identity [] false) := found
    generalize ({ disk with calls := disk.calls + 1 } : Disk) = disk at held empty ⊢
    have written := held.call fun files (done : write temporary contents _ = .ok files) =>
      held.rewritten id rfl (List.suffix_refl _) done
    have stands : ∃ bytes, (disk.call (write temporary contents)).2.files.find temporary =
          some (.file identity bytes false) ∧
        ((disk.call (write temporary contents)).1.isSome = false → bytes = contents) := by
      rcases Disk.call_cases disk (write temporary contents) with ⟨error,failed⟩ | ⟨files,done,same⟩
      · rw [failed]
        exact ⟨_,empty,nofun⟩
      · obtain ⟨_,_,_,old,overwrites⟩ := rewrite_ok done
        rw [empty] at old
        cases old
        rw [same]
        exact ⟨_,overwrites.here empty,fun _ => rfl⟩
    generalize disk.call (write temporary contents) = put at written stands ⊢
    obtain ⟨bytes,stands,whole⟩ := stands
    obtain ⟨error,closed⟩ := call_nothing put.2
    rw [closed]
    have still : ({ put.2 with calls := put.2.calls + 1 } : Disk).Holding before output.location excuse False
        {temporary} := written.same rfl rfl
    dsimp only
    split
    · exact discardFile_publishes still ⟨_,_,_,stands⟩ aims
    rename_i fine
    obtain rfl := whole (by simp_all)
    unfold replaceOutput
    dsimp only
    rcases Disk.call_cases { put.2 with calls := put.2.calls + 1 } (rename temporary output.location) with
      ⟨error,failed⟩ | ⟨files,done,same⟩
    · rw [failed]
      have left : ({ put.2 with calls := put.2.calls + 1 + 1 } : Disk).Holding before output.location excuse False
          {temporary} := written.same rfl rfl
      exact discardFile_publishes left ⟨_,_,_,stands⟩ aims
    · rw [same]
      exact .renamed still stands ⟨identity,false,rfl,young⟩ done rfl aims

theorem writeFileAtomically_publishes (converted : Option OutputPath) (contents : Text) (disk : Disk) :
    Publishes disk.files ((converted.map OutputPath.location).getD []) (NewFile disk.files contents) False False
      (writeFileAtomically converted contents disk).1 (writeFileAtomically converted contents disk).2 := by
  unfold writeFileAtomically
  split
  · exact .failed (.start False disk) (newFile_aims _ _ _)
  rename_i output
  dsimp only [Option.map_some,Option.getD_some]
  have start : disk.Holding disk.files output.location False False ∅ := .start False disk
  rcases createFirst_cases createExclusive (temporaryFileName output) 100 0 disk with
    ⟨calls,failed⟩ | ⟨chosen,files,calls,-,created,same⟩
  · rw [failed]
    have still : ({ disk with calls } : Disk).Holding disk.files output.location False False ∅ := start.same rfl rfl
    exact .failed still (newFile_aims _ _ _)
  · rw [same]
    obtain ⟨absent,-,writes⟩ := createExclusive_ok created
    have marked : ".tmp".toList ≠ [] := by simp
    have clear := output.beside_apart (numbered_ne_nil marked chosen)
    have held : ({ disk with calls, files } : Disk).Holding disk.files output.location False False
        (insert (temporaryFileName output chosen) ∅) :=
      start.reserve absent writes (fun _ => start.new_young [] false) rfl fun above => absurd above clear
    rw [insert_empty_eq] at held
    exact writeThrough_publishes held writes.here contents

/-- Both functions publish in one step, whatever the compiler does and whichever calls fail. Only on
Windows, where the compiler works in a directory of its own, that directory may have taken the
output path's name and stay there when its removal fails. Only elsewhere, where a file is moved
as it is, the compiler may have linked its output to the file at the output path; the rename of
the one to the other then does nothing, and the reserved name stays. -/
theorem atomic_output_publication :
    (∀ (environment : BuildEnvironment) (request : NativeBuildRequest) (files : FileSystem)
      (failures : Nat → Option FileError),
      let build := buildNative environment request ⟨files,failures,0,false⟩
      let location := environment.publishedPath request
      Publishes files location (environment.Delivers files build.produced) (environment.MayTake location)
        (environment.Linked files location build.produced) build.result.ok build.disk) ∧
    ∀ (converted : Option OutputPath) (contents : Text) (files : FileSystem) (failures : Nat → Option FileError),
      let written := writeFileAtomically converted contents ⟨files,failures,0,false⟩
      Publishes files ((converted.map OutputPath.location).getD []) (NewFile files contents) False False
        written.1 written.2 :=
  ⟨fun environment request files failures => buildNative_publishes environment request ⟨files,failures,0,false⟩,
    fun converted contents files failures => writeFileAtomically_publishes converted contents ⟨files,failures,0,false⟩⟩

/-- A drive with nothing on it. -/
def emptyDrive : FileSystem where
  entries := [([],.directory)]
  nextIdentity := 0
  housed := by simp [List.lookup]
  issued := by
    intro path entry identity found given
    rw [lookup_cons] at found
    split at found
    · cases found
      cases given
    · cases found
  linked := by
    intro path other entry link identity found _ given
    rw [lookup_cons] at found
    split at found
    · cases found
      cases given
    · cases found

/-- Windows, with the temporary directory at the top of the drive and a compiler that does not start. -/
def unluckyEnvironment : BuildEnvironment where
  platform := .windowsMsvc
  executableExists _ := true
  resolvePathExecutable _ := []
  launchPath _ := none
  outputPath text := some ⟨[],text⟩
  pathToUtf8 _ := some []
  temporaryDirectory := some []
  processId := 1
  tickCount := 2
  errorNumber _ := 5
  compiler _ _ _ _ := .refused 2

def unluckyRequest : NativeBuildRequest := ⟨[],"bennu-build-1-2-0".toList,[],[]⟩

/-- The seventh call, which removes the compiler's workspace, fails. -/
def unluckyFailures (call : Nat) : Option FileError := if call = 6 then some .other else none

/-- A program at the top of a drive. -/
def programDrive : FileSystem :=
  emptyDrive.place "out".toList [] (.file 0 ['x'] true) rfl (by decide) (emptyDrive.fits_new ['x'] true)

/-- A compiler that leaves a link to the program that is there already. -/
def linkingEnvironment : BuildEnvironment where
  platform := .gccLike
  executableExists _ := true
  resolvePathExecutable _ := []
  launchPath _ := none
  outputPath text := some ⟨[],text⟩
  pathToUtf8 _ := some []
  temporaryDirectory := none
  processId := 1
  tickCount := 2
  errorNumber _ := 5
  compiler _ _ _ _ := .ran [("program".toList,[],.link ["out".toList])] [] true false 0 0

def linkingRequest : NativeBuildRequest := ⟨[],"out".toList,[],[]⟩

/-- On Windows an output path that named nothing names the compiler's directory after the failed
build. Elsewhere the name reserved beside an output path stays after a build whose compiler
linked its output to the program at that path. -/
theorem publication_exceptions :
    (let build := buildNative unluckyEnvironment unluckyRequest ⟨emptyDrive,unluckyFailures,0,false⟩
    ¬Publishes emptyDrive (unluckyEnvironment.publishedPath unluckyRequest)
      (unluckyEnvironment.Delivers emptyDrive build.produced) False False build.result.ok build.disk) ∧
    (let build := buildNative linkingEnvironment linkingRequest ⟨programDrive,fun _ => none,0,false⟩
    ¬Publishes programDrive (linkingEnvironment.publishedPath linkingRequest)
      (linkingEnvironment.Delivers programDrive build.produced) False False build.result.ok build.disk) := by
  constructor
  · intro build publishes
    have failed : build.result.ok = false := by decide +kernel
    have left : build.disk.files.find (unluckyEnvironment.publishedPath unluckyRequest) = some .directory := by
      decide +kernel
    rcases publishes.unpublished failed with same | excused
    · rw [left] at same
      cases same.trans (by decide +kernel : emptyDrive.find (unluckyEnvironment.publishedPath unluckyRequest) = none)
    · exact excused.1
  · intro build publishes
    have intact : build.disk.removalFailed = false := by decide +kernel
    have left : build.disk.files.find ["out.bennu-native.tmp".toList] = some (.file 0 ['x'] true) := by decide +kernel
    have same := publishes.clean intact (fun linked => linked.1) ["out.bennu-native.tmp".toList] (by decide +kernel)
    rw [left] at same
    cases same.trans (by decide +kernel : programDrive.find ["out.bennu-native.tmp".toList] = none)

end publication

end Bennu
