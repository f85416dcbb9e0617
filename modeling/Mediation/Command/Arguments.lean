import Mediation.Position

/-! The arguments of the command line. Options may stand anywhere; their values are attached to them
or follow as the next argument. What an option was given is judged only when something else has come
after it, so an argument that nobody knows is found before a value that is no good. -/

namespace Mediation

namespace Command

/-- How the positions to arm are printed. -/
inductive OutputFormat where
  /-- A position a line. -/
  | text
  /-- A response in JSON. -/
  | json
  deriving DecidableEq, Repr

/-- What a run is asked to do. -/
structure Arguments where
  /-- The path of the document. -/
  input : String
  line : UInt32
  column : UInt32
  /-- The path of the configuration file. -/
  config : Option String
  format : OutputFormat
  logLevel : String
  deriving DecidableEq, Repr

/-- Why arguments do not make a run. Asking for help or for the version is one of the reasons. -/
inductive UsageError where
  | missingRequired
  | unknownArgument
  /-- An option without a value, or with none of the values it may have. -/
  | invalidValue
  /-- A value that is no number, or too great a one. -/
  | badNumber
  | repeatedOption
  /-- A value for an option that takes none. -/
  | surplusValue
  | help
  | version
  deriving DecidableEq, Repr

/-- What may be given a value. -/
inductive Slot where
  | input
  | line
  | column
  | config
  | format
  | logLevel
  deriving DecidableEq, Repr

/-- What an option asks for. -/
inductive Wish where
  | value (slot : Slot)
  | help
  | version
  deriving DecidableEq, Repr

namespace Wish

def ofLong? : String → Option Wish
  | "line" => some (value .line)
  | "column" => some (value .column)
  | "config" => some (value .config)
  | "format" => some (value .format)
  | "log-level" => some (value .logLevel)
  | "help" => some help
  | "version" => some version
  | _ => none

def ofShort? : Char → Option Wish
  | 'l' => some (value .line)
  | 'c' => some (value .config)
  | 'f' => some (value .format)
  | 'h' => some help
  | 'V' => some version
  | _ => none

end Wish

/-- What has been given so far. -/
structure Draft where
  input : Option String := none
  line : Option UInt32 := none
  column : Option UInt32 := none
  config : Option String := none
  format : Option OutputFormat := none
  logLevel : Option String := none
  /-- The slot that was asked for last, and its value if that has come. -/
  pending : Option (Slot × Option String) := none
  /-- From here on nothing is taken for an option. -/
  optionsEnded : Bool := false
  deriving DecidableEq, Repr

/-- A decimal number of 32 bits, with or without a sign. -/
def number? (s : String) : Option UInt32 :=
  let (negative, digits) : Bool × List Char :=
    match s.toList with
    | '-' :: rest => (true, rest)
    | '+' :: rest => (false, rest)
    | rest => (false, rest)
  if digits.isEmpty || digits.any (!·.isDigit) then none
  else
    let n := digits.foldl (fun n c => 10 * n + (c.toNat - 48)) 0
    if n < UInt32.size ∧ (negative → n = 0) then some (UInt32.ofNat n) else none

def OutputFormat.ofName? : String → Option OutputFormat
  | "text" => some .text
  | "json" => some .json
  | _ => none

namespace Draft

def has (d : Draft) : Slot → Bool
  | .input => d.input.isSome
  | .line => d.line.isSome
  | .column => d.column.isSome
  | .config => d.config.isSome
  | .format => d.format.isSome
  | .logLevel => d.logLevel.isSome

/-- A number, or the reason why it is none. -/
def number (s : String) : Except UsageError UInt32 :=
  match number? s with
  | some n => .ok n
  | none => .error .badNumber

def assign (d : Draft) (slot : Slot) (value : String) : Except UsageError Draft := do
  if d.has slot then throw .repeatedOption
  match slot with
  | .input => return { d with input := some value }
  | .line => return { d with line := some (← number value) }
  | .column => return { d with column := some (← number value) }
  | .config => return { d with config := some value }
  | .format =>
      match OutputFormat.ofName? value with
      | some format => return { d with format := some format }
      | none => throw .invalidValue
  | .logLevel => return { d with logLevel := some value }

def settle (d : Draft) : Except UsageError Draft :=
  match d.pending with
  | none => .ok d
  | some (_, none) => .error .invalidValue
  | some (slot, some value) => { d with pending := none }.assign slot value

/-- Takes an option, with a value if one is attached to it. -/
def take (d : Draft) (wish : Wish) (attached : Option String) : Except UsageError Draft :=
  match wish, attached with
  | .help, some _ | .version, some _ => .error .surplusValue
  | .help, none => do
    discard d.settle
    throw .help
  | .version, none => do
    discard d.settle
    throw .version
  | .value slot, some value => do (← d.settle).assign slot value
  | .value slot, none => do return { ← d.settle with pending := some (slot, none) }

/-- Takes an argument of letters behind a dash. What follows a letter that needs a value is the
value, with or without a sign of equality. -/
def takeLetters (d : Draft) : List Char → Except UsageError Draft
  | [] => .ok d
  | letter :: rest =>
      match Wish.ofShort? letter with
      | none => .error .unknownArgument
      | some (.value slot) =>
          match rest with
          | [] => d.take (.value slot) none
          | '=' :: value | value => d.take (.value slot) (some (String.ofList value))
      | some wish => do (← d.take wish none).takeLetters rest

def takeLong (d : Draft) (chars : List Char) : Except UsageError Draft :=
  let name := chars.takeWhile (· ≠ '=')
  let attached := match chars.drop name.length with
    | [] => none
    | _ :: value => some (String.ofList value)
  match Wish.ofLong? (String.ofList name) with
  | some wish => d.take wish attached
  | none => .error .unknownArgument

def takePlain (d : Draft) (value : String) : Except UsageError Draft := do
  let inputGiven := d.has .input || d.pending.any (·.1 = .input)
  if inputGiven then throw .unknownArgument
  return { ← d.settle with pending := some (.input, some value) }

def step (d : Draft) (argument : String) : Except UsageError Draft :=
  let plain (d : Draft) : Except UsageError Draft :=
    match d.pending with
    | some (slot, none) =>
        if d.optionsEnded then d.takePlain argument
        else .ok { d with pending := some (slot, some argument) }
    | _ => d.takePlain argument
  if d.optionsEnded then plain d
  else
    match argument.toList with
    | ['-', '-'] => .ok { d with optionsEnded := true }
    | '-' :: '-' :: rest => d.takeLong rest
    | '-' :: letter :: rest => d.takeLetters (letter :: rest)
    | _ => plain d

/-- What has been given, with defaults for what may be left out. -/
def finish (d : Draft) : Except UsageError Arguments := do
  let d ← d.settle
  match d.input, d.line with
  | some input, some line =>
      return {
        input, line
        column := d.column.getD 0
        config := d.config
        format := d.format.getD .text
        logLevel := d.logLevel.getD "warn" }
  | _, _ => throw .missingRequired

end Draft

/-- Reads the arguments after the name of the program. -/
def Arguments.ofList (arguments : List String) : Except UsageError Arguments := do
  (← arguments.foldlM Draft.step {}).finish

end Command

end Mediation
