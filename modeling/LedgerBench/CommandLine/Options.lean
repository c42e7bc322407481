import LedgerBench.Event.Source

/-!
# The options of the command line

Each option takes a value, which may be attached (`-cFILE`, `-c=FILE`, `--client=FILE`) or follow as
an argument of its own. There are no other arguments. An option whose value has not been attached is
settled when the next option begins, or at the end; a word that is no option at all is refused
before that.
-/

namespace LedgerBench

/-- What the command line asks for. -/
structure Options where
  /-- The log of the client. -/
  client : String
  /-- The logs of the peers. -/
  peers : List String
  /-- The logs of the storage nodes. -/
  storages : List String
  /-- The file to which the report is written. -/
  output : Option String
deriving Repr, DecidableEq

/-- Why a command line is not carried out. -/
inductive UsageFault where
  /-- An option without a value. -/
  | invalidValue
  /-- A word that is no option and no value. -/
  | unknownArgument
  /-- An option that may be given only once. -/
  | repeated
  /-- There is no client log. -/
  | missingClient
  /-- A value for an option that takes none. -/
  | unwantedValue
  /-- Help is asked for. -/
  | helpWanted
deriving Repr, DecidableEq

namespace Options

/-- The options by name. -/
inductive Flag where
  /-- The log of the client. -/
  | client
  /-- The log of a peer. -/
  | peer
  /-- The log of a storage node. -/
  | storage
  /-- The file for the report. -/
  | output
  /-- A request for help. -/
  | help
deriving Repr, DecidableEq

/-- The option of a single letter. -/
def Flag.ofLetter? : Char → Option Flag
  | 'c' => some client
  | 'p' => some peer
  | 's' => some storage
  | 'o' => some output
  | 'h' => some help
  | _ => none

/-- The option of a word. -/
def Flag.ofWord? : String → Option Flag
  | "client" => some client
  | "peer" => some peer
  | "storage" => some storage
  | "output" => some output
  | "help" => some help
  | _ => none

/-- The options given so far. -/
structure Given where
  /-- The log of the client. -/
  client : Option String := none
  /-- The logs of the peers. -/
  peers : List String := []
  /-- The logs of the storage nodes. -/
  storages : List String := []
  /-- The file for the report. -/
  output : Option String := none
  /-- The option that has not been settled yet, with its value if that has been met. -/
  pending : Option (Flag × Option String) := none

namespace Given

/-- Records the value of an option. -/
def record (g : Given) (flag : Flag) (value : Option String) : Except UsageFault Given :=
  match value with
  | none => .error .invalidValue
  | some value =>
    if (flag = .client && g.client.isSome) || (flag = .output && g.output.isSome) then
      .error .repeated
    else if value = "" then .error .invalidValue
    else match flag with
      | .client => .ok { g with client := some value }
      | .peer => .ok { g with peers := g.peers ++ [value] }
      | .storage => .ok { g with storages := g.storages ++ [value] }
      | .output => .ok { g with output := some value }
      | .help => .error .helpWanted

/-- Settles the option that is pending. -/
def settle (g : Given) : Except UsageFault Given :=
  match g.pending with
  | none => .ok g
  | some (flag, value) => { g with pending := none }.record flag value

/-- An option is met, with the value that is attached to it. -/
def meet (g : Given) (flag : Flag) (attached : Option String) : Except UsageFault Given := do
  let g ← g.settle
  match flag, attached with
  | .help, _ => .error .helpWanted
  | flag, some value => g.record flag (some value)
  | flag, none => .ok { g with pending := some (flag, none) }

/-- A word that starts with two dashes. -/
def meetWord (g : Given) (word : List Char) : Except UsageFault Given :=
  let name := String.ofList (word.takeWhile (· ≠ '='))
  let attached :=
    match word.dropWhile (· ≠ '=') with
    | [] => none
    | _ :: value => some (String.ofList value)
  match Flag.ofWord? name with
  | none => .error .unknownArgument
  | some .help => if attached.isSome then .error .unwantedValue else g.meet .help none
  | some flag => g.meet flag attached

/-- Letters after one dash; the rest after the letter of an option is its value. -/
def meetLetters (g : Given) : List Char → Except UsageFault Given
  | [] => .ok g
  | letter :: rest =>
    match Flag.ofLetter? letter with
    | none => .error .unknownArgument
    | some flag =>
      g.meet flag <|
        match rest with
        | [] => none
        | '=' :: value => some (String.ofList value)
        | value => some (String.ofList value)

/-- A word that is no option: the value of the option before it, or nothing that is known. -/
def meetValue (g : Given) (value : String) : Except UsageFault Given :=
  match g.pending with
  | some (flag, none) => .ok { g with pending := some (flag, some value) }
  | _ => .error .unknownArgument

/-- Reads the arguments; `--` ends the options. -/
def read (g : Given) : List String → Except UsageFault Given
  | [] => g.settle
  | arg :: rest =>
    match arg.toList with
    | ['-', '-'] => if rest.isEmpty then g.settle else .error .unknownArgument
    | '-' :: '-' :: word => do (← g.meetWord word).read rest
    | '-' :: letter :: letters => do (← g.meetLetters (letter :: letters)).read rest
    -- a lone dash is a value like any other word
    | _ => do (← g.meetValue arg).read rest

end Given

/-- Reads the arguments of the command line. -/
def read (args : List String) : Except UsageFault Options := do
  let g ← Given.read {} args
  match g.client with
  | none => .error .missingClient
  | some client => return ⟨client, g.peers, g.storages, g.output⟩

/-- Where the logs of a benchmark are. -/
def sources (o : Options) : List Source := Source.collect o.client o.peers o.storages

end Options

end LedgerBench
