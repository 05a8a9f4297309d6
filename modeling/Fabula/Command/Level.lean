import Fabula.Text.Basic

/-!
# What is said on one level of a command line

A command line has levels, each begun by a word of the level above. On a level
there are flags, `--name`; options, which have a value, `--name value` or
`--name=value`; and plain arguments. Whatever follows a lone `--` is plain.
Nothing is said twice on one level, and what nobody asked for is refused.
-/

namespace Fabula

namespace Command

/-- **What may be said on a level.** -/
structure Level where
  /-- The options. -/
  options : List Text
  /-- The flags. -/
  flags : List Text
  /-- The words that begin a next level. -/
  words : List Text := []

/-- **What was said on a level.** -/
structure Said where
  /-- The options, each with its value. -/
  options : List (Text × Text) := []
  /-- The flags. -/
  flags : List Text := []
  /-- The plain arguments, in order. -/
  places : List Text := []
deriving DecidableEq, Repr

namespace Said

/-- The value of an option. -/
def option? (said : Said) (name : String) : Option Text :=
  said.options.lookup name.toList

/-- Whether a flag was said. -/
def flag (said : Said) (name : String) : Bool :=
  said.flags.contains name.toList

/-- What was said, and an option with it. -/
def addOption? (said : Said) (name value : Text) : Option Said :=
  if (said.options.lookup name).isSome then none
  else some { said with options := said.options ++ [(name, value)] }

/-- What was said, and a flag with it. -/
def addFlag? (said : Said) (name : Text) : Option Said :=
  if said.flags.contains name then none else some { said with flags := said.flags ++ [name] }

/-- What was said, and plain arguments with it. -/
def addPlaces (said : Said) (arguments : List Text) : Said :=
  { said with places := said.places ++ arguments }

end Said

/-- **How an argument looks.** -/
inductive Look where
  /-- Like a plain argument. -/
  | plain
  /-- Like the name of an option or a flag. -/
  | named (name : Text)
  /-- Like the name of an option with its value. -/
  | assigned (name value : Text)
  /-- Like the end of options and flags. -/
  | ending
  /-- Like short flags, of which there are none but `-v`. -/
  | unknown
deriving DecidableEq, Repr

/-- How an argument looks. A lone hyphen is plain. -/
def Look.of (argument : Text) : Look :=
  match argument with
  | ['-', '-'] => .ending
  | '-' :: '-' :: body =>
    match Text.cut? ['='] body with
    | some (name, value) => .assigned name value
    | none => .named body
  | ['-', 'v'] => .named "verbose".toList
  | '-' :: _ :: _ => .unknown
  | _ => .plain

namespace Level

/-- **Reads what is said on a level**, up to the word that begins the next
one, which is answered with all that follows it. -/
def read? (level : Level) (said : Said) : List Text → Option (Said × List Text)
  | [] => some (said, [])
  | argument :: rest =>
    if level.words.contains argument then some (said, argument :: rest)
    else
      match Look.of argument with
      | .ending => some (said.addPlaces rest, [])
      | .plain => read? level (said.addPlaces [argument]) rest
      | .unknown => none
      | .assigned name value =>
        if level.options.contains name then
          (said.addOption? name value).bind fun said => read? level said rest
        else none
      | .named name =>
        if level.flags.contains name then
          (said.addFlag? name).bind fun said => read? level said rest
        else if level.options.contains name then
          match rest with
          | [] => none
          | value :: rest =>
            if Look.of value = .plain then
              (said.addOption? name value).bind fun said => read? level said rest
            else none
        else none

end Level

end Command

end Fabula
