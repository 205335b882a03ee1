import StyleContract.Json.Basic

/-!
# Command line — Grammar

Command lines of commands with options. Arguments are taken from the left. An option's value is
checked when the next argument has been understood, so that an argument that nothing can be made
of is reported before a bad value in front of it.
-/

namespace StyleContract.CommandLine

/-- Why there is nothing to run. -/
inductive Refusal where
  /-- No value, or one that is not listed. -/
  | invalidValue
  /-- A value that cannot be read. -/
  | unreadableValue
  | unknownArgument
  | unknownCommand
  /-- An option that is given again. -/
  | repeatedOption
  /-- A value for an option that has none. -/
  | unexpectedValue
  | missingCommand
  | help
  /-- Help, because there are no arguments. -/
  | helpForNothing
  | version
  deriving DecidableEq, Repr

/-- What an option does. -/
inductive Use where
  /-- It is given or not. -/
  | flag
  /-- It may be given more than once. -/
  | counter
  /-- It has a value, which is refused or not. -/
  | value (check : String → Option Refusal)
  /-- It asks for something else than a run. -/
  | ask (refusal : Refusal)

/-- An option, by its long name and perhaps a letter. -/
structure Switch where
  name : String
  letter : Option Char := none
  use : Use := .flag

/-- What a command line may say. -/
structure Grammar where
  switches : List Switch
  /-- The name of an argument that is no option. -/
  operand : Option String := none
  /-- The commands of which one has to be named. -/
  commands : List (String × Grammar) := []

/-- What a command line says: options and their values, and the command with what follows it. -/
inductive Said where
  | mk (values : List (String × String)) (command : Option (String × Said))

namespace Said

def values : Said → List (String × String)
  | .mk values _ => values

def command : Said → Option (String × Said)
  | .mk _ command => command

def value? (s : Said) (name : String) : Option String :=
  (s.values.find? (·.1 == name)).map (·.2)

def has (s : Said) (name : String) : Bool := (s.value? name).isSome

end Said

/-- What has been taken from a command line. -/
structure Taken where
  values : List (String × String) := []
  /-- An option or operand whose value has not been checked. -/
  pending : Option (Switch × Option String) := none

namespace Taken

/-- Whether the next argument may be a value. -/
def isWaiting (t : Taken) : Bool :=
  match t.pending with
  | some (_, none) => true
  | _ => false

def has (t : Taken) (name : String) : Bool := t.values.any (·.1 == name)

/-- Checks the value that is pending. -/
def settle (t : Taken) : Except Refusal Taken :=
  match t.pending with
  | none => .ok t
  | some (_, none) => .error .invalidValue
  | some (switch, some value) =>
    if t.has switch.name then .error .repeatedOption
    else
      match switch.use with
      | .value check =>
        match check value with
        | some refusal => .error refusal
        | none => .ok ⟨t.values ++ [(switch.name, value)], none⟩
      | _ => .ok ⟨t.values ++ [(switch.name, value)], none⟩

/-- Takes an option, with its value if that is in the same argument. -/
def take (t : Taken) (switch : Switch) (value : Option String) : Except Refusal Taken := do
  let t ← t.settle
  match switch.use with
  | .value _ => ({ t with pending := some (switch, value) } : Taken) |> fun t =>
    if value.isSome then t.settle else .ok t
  | .flag =>
    if t.has switch.name then .error .repeatedOption
    else .ok { t with values := t.values ++ [(switch.name, "")] }
  | .counter => .ok { t with values := t.values ++ [(switch.name, "")] }
  | .ask refusal => .error refusal

end Taken

namespace Grammar

def command? (g : Grammar) (name : String) : Option Grammar :=
  (g.commands.find? (·.1 == name)).map (·.2)

/-- The name of the command that gives help on other commands. -/
def helpCommand : String := "help"

/-- What comes of asking for help on a command. -/
def helpOn (g : Grammar) : List String → Refusal
  | [] => .help
  | name :: names =>
    match g.command? name with
    | some inner => inner.helpOn names
    | none => if name = helpCommand && !g.commands.isEmpty && names.isEmpty then .help
      else .unknownCommand

/-- Takes a long option; its name and value stand on both sides of the first equals sign. -/
def takeLong (g : Grammar) (t : Taken) (text : List Char) : Except Refusal Taken :=
  let name := text.takeWhile (· != '=')
  let value := match text.drop name.length with
    | [] => none
    | _ :: cs => some (String.ofList cs)
  match g.switches.find? (·.name == String.ofList name) with
  | none => .error .unknownArgument
  | some switch =>
    match switch.use, value with
    | .value _, _ => t.take switch value
    | _, none => t.take switch none
    | _, some _ => .error .unexpectedValue

/-- Takes options by their letters; what follows an option with a value is its value. -/
def takeLetters (g : Grammar) (t : Taken) : List Char → Except Refusal Taken
  | [] => .ok t
  | c :: cs =>
    match g.switches.find? (·.letter == some c) with
    | none => .error .unknownArgument
    | some switch =>
      match switch.use with
      | .value _ =>
        match cs with
        | [] => t.take switch none
        | '=' :: value => t.take switch (some (String.ofList value))
        | value => t.take switch (some (String.ofList value))
      | _ => do g.takeLetters (← t.take switch none) cs

/-- Takes an argument that is no option; `plain` says that no option or command may follow. -/
def takeOperand (g : Grammar) (t : Taken) (plain : Bool) (a : String) : Except Refusal Taken :=
  let first := (g.operand.filter fun name =>
    !t.has name && !(t.pending.any fun p => p.1.name == name))
  match first with
  | some name => do
    let t ← t.settle
    .ok { t with pending := some ({ name := name, use := .value fun _ => none }, some a) }
  | none =>
    if g.commands.isEmpty || (plain && (g.command? a).isSome) then .error .unknownArgument
    else .error .unknownCommand

/-- What has been said once no argument is left. -/
def finish (g : Grammar) (t : Taken) : Except Refusal Said := do
  let t ← t.settle
  if g.commands.isEmpty then .ok (.mk t.values none)
  else if t.values.isEmpty then .error .helpForNothing
  else .error .missingCommand

/-- Reads arguments; `plain` says that those that are left are operands. -/
def readFrom (g : Grammar) (t : Taken) (plain : Bool) : List String → Except Refusal Said
  | [] => g.finish t
  | a :: args =>
    if plain then do g.readFrom (← g.takeOperand t true a) true args
    else
      let inner := if t.isWaiting then none else g.command? a
      match inner with
      | some inner => do
        let said ← inner.readFrom {} false args
        let t ← t.settle
        .ok (.mk t.values (some (a, said)))
      | none =>
        if a = helpCommand && !t.isWaiting && !g.commands.isEmpty then .error (g.helpOn args)
        else
          match a.toList with
          | ['-', '-'] => g.readFrom t true args
          | '-' :: '-' :: text => do g.readFrom (← g.takeLong t text) false args
          | '-' :: c :: cs => do g.readFrom (← g.takeLetters t (c :: cs)) false args
          | _ =>
            match t.pending with
            | some (switch, none) =>
              g.readFrom { t with pending := some (switch, some a) } false args
            | _ => do g.readFrom (← g.takeOperand t false a) false args

/-- Reads a command line. -/
def read (g : Grammar) (args : List String) : Except Refusal Said := g.readFrom {} false args

end Grammar

end StyleContract.CommandLine
