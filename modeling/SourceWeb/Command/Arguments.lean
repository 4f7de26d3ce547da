/-
  Reading the words of a command line by a grammar of options.

  An option has a long name and may have a letter.  Letters can be written together, a value can be
  attached to its option, with an equals sign or, behind a letter, without one, or be the next
  word.  A word that starts with a hyphen is never taken for the value of the option before it.
  Two hyphens end the options.
-/
import SourceWeb.Text.Split

namespace SourceWeb.Command

open SourceWeb.Text

/-! ### Grammars -/

inductive Takes
  | nothing
  | value
  | optionalValue
  | help
  | version
  deriving DecidableEq, Repr

/-- An option: its long name, its letter, what it takes, whether it may be given more than once,
    the values that it accepts, and what it is for. -/
structure Opt where
  name : String
  letter : Option Char := none
  takes : Takes := .nothing
  repeats : Bool := false
  accepts : String → Bool := fun _ => true
  about : String := ""

/-- The options of a command, whether it takes operands, and then at least one, and which options
    exclude each other. -/
structure Grammar where
  options : List Opt
  operands : Bool := false
  conflicts : List (String × String) := []

def isFilled (s : String) : Bool := s != ""

namespace Grammar

def named? (g : Grammar) (name : String) : Option Opt :=
  g.options.find? fun o => o.name == name

def lettered? (g : Grammar) (c : Char) : Option Opt :=
  g.options.find? fun o => o.letter == some c

end Grammar

/-! ### What was read -/

inductive Stop
  /-- The words do not follow the grammar. -/
  | misuse
  /-- Help is asked for. -/
  | help
  /-- The version is asked for. -/
  | version
  deriving DecidableEq, Repr

/-- The options that were given, with their values, and the operands, all in their order. -/
structure Arguments where
  given : List (String × Option String) := []
  operands : List String := []
  deriving DecidableEq, Repr

namespace Arguments

def has (a : Arguments) (name : String) : Bool :=
  a.given.any fun g => g.1 == name

/-- The value of an option that was given; `some none` is an option without its value. -/
def value? (a : Arguments) (name : String) : Option (Option String) :=
  a.given.lookup name

def get? (a : Arguments) (name : String) : Option String :=
  (a.value? name).join

def all (a : Arguments) (name : String) : List String :=
  a.given.filterMap fun g => if g.1 == name then g.2 else none

end Arguments

/-! ### Reading -/

/-- Where the reading stands: what was read, the option that waits for its value, and whether the
    options have ended. -/
structure Reading where
  arguments : Arguments := {}
  pending : Option Opt := none
  ended : Bool := false

namespace Reading

def give (r : Reading) (o : Opt) (value : Option String) : Except Stop Reading :=
  if !o.repeats && r.arguments.has o.name then .error .misuse
  else if value.all o.accepts then
    .ok { r with
      arguments := { r.arguments with given := r.arguments.given ++ [(o.name, value)] }
      pending := none }
  else .error .misuse

def settle (r : Reading) : Except Stop Reading :=
  match r.pending with
  | none => .ok r
  | some o => if o.takes = .optionalValue then r.give o none else .error .misuse

/-- Takes down an option that comes up with the value attached to it, if there is one. -/
def meet (r : Reading) (o : Opt) (attached : Option String) : Except Stop Reading := do
  let r ← r.settle
  match o.takes, attached with
  | .help, none => .error .help
  | .version, none => .error .version
  | .nothing, none => r.give o none
  | .value, some v | .optionalValue, some v => r.give o (some v)
  | .value, none | .optionalValue, none => .ok { r with pending := some o }
  | _, some _ => .error .misuse

def operand (g : Grammar) (r : Reading) (s : String) : Except Stop Reading := do
  let r ← r.settle
  if g.operands && isFilled s then
    return { r with arguments := { r.arguments with operands := r.arguments.operands ++ [s] } }
  else .error .misuse

def letters (g : Grammar) (r : Reading) : List Char → Except Stop Reading
  | [] => .ok r
  | c :: cs =>
    match g.lettered? c with
    | none => .error .misuse
    | some o =>
      -- what is left of the word is the value
      if o.takes = .value ∨ o.takes = .optionalValue then
        r.meet o <| match cs with
          | [] => none
          | '=' :: cs => some (String.ofList cs)
          | cs => some (String.ofList cs)
      else do letters g (← r.meet o none) cs

def long (g : Grammar) (r : Reading) (cs : List Char) : Except Stop Reading :=
  let name := cs.takeWhile (· != '=')
  let attached := match cs.dropWhile (· != '=') with
    | _ :: v => some (String.ofList v)
    | [] => none
  match g.named? (String.ofList name) with
  | some o => r.meet o attached
  | none => .error .misuse

end Reading

/-- Reads words to the end; or, if `first` says so, to the first operand, which is handed back with
    the words behind it. -/
def Grammar.readFrom (g : Grammar) (first : Bool) :
    Reading → List String → Except Stop (Reading × List String)
  | r, [] => return (← r.settle, [])
  | r, word :: words => do
    if r.ended then g.readFrom first (← r.operand g word) words
    else match word.toList with
      | ['-', '-'] => g.readFrom first { (← r.settle) with ended := true } words
      | '-' :: '-' :: cs => g.readFrom first (← r.long g cs) words
      | '-' :: c :: cs => g.readFrom first (← r.letters g (c :: cs)) words
      | _ =>
        match r.pending with
        | some o => g.readFrom first (← r.give o (some word)) words
        | none =>
          if first then return (r, word :: words)
          else g.readFrom first (← r.operand g word) words

/-- Do the arguments follow the rules of the grammar on what stands together? -/
def Grammar.allows (g : Grammar) (a : Arguments) : Bool :=
  g.conflicts.all (fun c => !(a.has c.1 && a.has c.2)) &&
    (!g.operands || !a.operands.isEmpty)

def Grammar.read (g : Grammar) (words : List String) : Except Stop Arguments := do
  let (r, _) ← g.readFrom false {} words
  if g.allows r.arguments then return r.arguments else .error .misuse

end SourceWeb.Command
