import ScriptFront.Command

/-!
# Reading, timing and writing around the command

`main` takes the options `--ast`, `--tokens` and `--timings`, each once at most, and one file name.
Other arguments are refused (`readArguments`).
-/

namespace ScriptFront.Command

/-- The arguments that were read so far. -/
structure Arguments where
  /-- The options that were given. -/
  options : Options
  /-- The file name, if there was one. -/
  file : Option String

/-- Read a file name. It must not be empty, and there must be no other. -/
def Arguments.readFile (arguments : Arguments) (name : String) : Option Arguments :=
  if name.isEmpty || arguments.file.isSome then none
  else some { arguments with file := some name }

/-- Read an option or a file name. An option must be known and may be given once. -/
def Arguments.read (arguments : Arguments) (argument : String) : Option Arguments :=
  let ⟨ast, tokens, timings⟩ := arguments.options
  match argument with
  | "--ast" => if ast then none else some { arguments with options := ⟨true, tokens, timings⟩ }
  | "--tokens" => if tokens then none else some { arguments with options := ⟨ast, true, timings⟩ }
  | "--timings" => if timings then none else some { arguments with options := ⟨ast, tokens, true⟩ }
  | _ =>
    if argument.startsWith "-" && argument != "-" then none else arguments.readFile argument

/-- Read the arguments one after another. Behind `--` there are only file names. -/
def Arguments.readAll (arguments : Arguments) : List String → Option Arguments
  | [] => some arguments
  | "--" :: names => names.foldlM Arguments.readFile arguments
  | argument :: rest => (arguments.read argument).bind fun read => read.readAll rest

/-- The options and the file name that the arguments give, if they are in order. -/
def readArguments (arguments : List String) : Option (Options × String) := do
  let read ← Arguments.readAll ⟨⟨false, false, false⟩, none⟩ arguments
  return (read.options, ← read.file)

/-- A number of nanoseconds in milliseconds, with three decimals. -/
def milliseconds (nanoseconds : Nat) : String :=
  let micros := nanoseconds / 1000
  let decimals := toString (micros % 1000)
  toString (micros / 1000) ++ "." ++ String.ofList (List.replicate (3 - decimals.length) '0') ++
    decimals ++ "ms"

/-- Write an outcome to the two streams. -/
def write (outcome : Outcome) : IO UInt32 := do
  IO.print outcome.stdout
  IO.eprint outcome.stderr
  return outcome.code

/-- Do some work and say how many nanoseconds it took. -/
def timed {α : Type} (work : Unit → α) : IO (α × Nat) := do
  let start ← IO.monoNanosNow
  let value ← IO.lazyPure work
  let stop ← IO.monoNanosNow
  return (value, stop - start)

/-- Answer for a text that was read, with the time each phase took. -/
def answerTimed (options : Options) (file text : String) : IO UInt32 := do
  let (split, splitTime) ← timed fun _ => tokenize text
  match split with
  | .error problem => write (rejected file text problem)
  | .ok tokens =>
    let ((program, diagnostics), parseTime) ← timed fun _ => parseTokens tokens
    let durations :=
      ⟨milliseconds splitTime, milliseconds parseTime, milliseconds (splitTime + parseTime)⟩
    write (concluded options durations file text tokens program diagnostics)

/-- Read the file and answer. -/
def runFile (options : Options) (file : String) : IO UInt32 := do
  match ← (IO.FS.readFile file).toBaseIO with
  | .ok text => answerTimed options file text
  | .error (.noFileOrDirectory ..) => write (unreadable file noSuchFile)
  | .error problem => write (unreadable file (toString problem))

end ScriptFront.Command

/-- Parse the file named on the command line and report what is wrong with it. -/
def main (arguments : List String) : IO UInt32 :=
  match ScriptFront.Command.readArguments arguments with
  | some (options, file) => ScriptFront.Command.runFile options file
  | none => do
    IO.eprintln "usage: [--ast] [--tokens] [--timings] FILE"
    return 2
