import Foregone.Text.Quoted
import Foregone.Text.Similar

/-! # Options and arguments

An option has a long name and, some, a letter. Letters can be written together, and
the value of a long option follows it or is joined to it by an equals sign. A double
dash ends the options. -/

namespace Foregone

/-- Why the arguments of a call cannot be used. -/
inductive UsageError where
  | missingCommand
  | noSuchCommand (name : String)
  /-- an unknown option, with the options that are written alike -/
  | noSuchOption (name : String) (alike : List String)
  | needsValue (option : String)
  | takesNoValue (option : String)
  | missingArgument (name : String)
  | extraArguments (values : List String)
  /-- a value of the argument or option `name` that is not allowed, and why -/
  | invalidValue (name : String) (reason : String)
  deriving DecidableEq, Repr

def UsageError.message : UsageError → String
  | .missingCommand => "Missing command."
  | .noSuchCommand name => "No such command " ++ Text.quoted name ++ "."
  | .noSuchOption name [] => "No such option: " ++ name
  | .noSuchOption name [one] => "No such option: " ++ name ++ " Did you mean " ++ one ++ "?"
  | .noSuchOption name several =>
    "No such option: " ++ name ++ " (Possible options: " ++ ", ".intercalate several ++ ")"
  | .needsValue option => "Option " ++ Text.quoted option ++ " requires an argument."
  | .takesNoValue option => "Option " ++ Text.quoted option ++ " does not take a value."
  | .missingArgument name => "Missing argument '" ++ name ++ "'."
  | .extraArguments [one] => "Got unexpected extra argument (" ++ one ++ ")"
  | .extraArguments values =>
    "Got unexpected extra arguments (" ++ " ".intercalate values ++ ")"
  | .invalidValue name reason => "Invalid value for " ++ name ++ ": " ++ reason

/-- An option of a command. -/
structure OptionSpec where
  long : String
  letter : Option Char
  takesValue : Bool
  deriving DecidableEq, Repr

/-- The options of a command, and whether they may follow its arguments. -/
structure OptionSet where
  options : List OptionSpec
  interspersed : Bool
  deriving DecidableEq, Repr

/-- What a list of arguments was read as: the long names of the options with their
values, in order, and the arguments proper. -/
structure ParsedArguments where
  options : List (String × String)
  arguments : List String
  deriving DecidableEq, Repr

namespace OptionSet

/-- The letters of an argument such as `-vv`, as long names of options. -/
def letters (set : OptionSet) : List Char → Except UsageError (List (String × String))
  | [] => .ok []
  | c :: rest =>
    match set.options.find? fun o => o.letter == some c with
    | some o => (set.letters rest).map ((o.long, "") :: ·)
    | none => .error (.noSuchOption ("-" ++ c.toString) [])

/-- A name and the value joined to it by an equals sign, the first of the argument. -/
def splitValue (arg : String) : String × Option String :=
  let name := arg.toList.takeWhile (· != '=')
  match arg.toList.drop name.length with
  | [] => (arg, none)
  | _ :: value => (String.ofList name, some (String.ofList value))

/-- An option that no other is named like. -/
def unknown (set : OptionSet) (name : String) : UsageError :=
  .noSuchOption name ((set.options.map OptionSpec.long).filter fun o => Text.similar o name)

/-- Read arguments from left to right, after what is parsed already. -/
def readFrom (set : OptionSet) (parsed : ParsedArguments) :
    List String → Except UsageError ParsedArguments
  | [] => .ok parsed
  | arg :: rest =>
    let keep (more : List String) : ParsedArguments :=
      { parsed with arguments := parsed.arguments ++ more }
    if arg = "--" then .ok (keep rest)
    else if arg.startsWith "-" ∧ arg ≠ "-" then
      let (name, joined) := splitValue arg
      match set.options.find? fun o => o.long == name with
      | some o =>
        let found (value : String) : ParsedArguments :=
          { parsed with options := parsed.options ++ [(o.long, value)] }
        if o.takesValue then
          match joined with
          | some value => set.readFrom (found value) rest
          | none => match rest with
            | value :: after => set.readFrom (found value) after
            | [] => .error (.needsValue name)
        else if joined.isSome then .error (.takesNoValue name)
        else set.readFrom (found "") rest
      | none =>
        if arg.startsWith "--" then .error (set.unknown name)
        else match set.letters (arg.toList.drop 1) with
          | .ok found =>
            set.readFrom { parsed with options := parsed.options ++ found } rest
          | .error e => .error e
    else if set.interspersed then set.readFrom (keep [arg]) rest
    else .ok (keep (arg :: rest))

def read (set : OptionSet) (args : List String) : Except UsageError ParsedArguments :=
  set.readFrom ⟨[], []⟩ args

end OptionSet
end Foregone
