import Herald.Text.Basic

namespace Herald.Cli

inductive Request
  | pub (subject payload : String) (reply : Option String)
  | sub (subject : String) (queue : Option String) (count : Option Nat)
  | request (subject payload : String) (timeoutMs : Nat)
deriving DecidableEq, Repr

inductive Topic
  | general
  | pub
  | sub
  | request
  | help
deriving DecidableEq, Repr

inductive Invocation
  | run (request : Request) (server : String)
  | help (topic : Topic)
  | version
  | usage
deriving DecidableEq, Repr

def defaultServer : String := "nats://127.0.0.1:4222"

def defaultTimeoutMs : Nat := 2000

/-- The options that a subcommand takes, with the values that each allows, and how many other
arguments may stand with them. -/
structure Shape where
  options : List (String × (String → Bool))
  positionals : Nat

structure Given where
  positionals : List String := []
  options : List (String × String) := []

inductive Scan
  | help
  | usage
  | given (g : Given)

def Given.option? (g : Given) (name : String) : Option String :=
  (g.options.find? (·.1 == name)).map (·.2)

/-- An argument that begins with a hyphen, and is not a hyphen alone, is no value. -/
def isFlag (a : String) : Bool :=
  match a.toList with
  | '-' :: _ :: _ => true
  | _ => false

def Shape.addOption (shape : Shape) (g : Given) (name value : String) : Option Given :=
  match shape.options.find? (·.1 == name) with
  | none => none
  | some (_, allows) =>
    if (g.option? name).isSome || !allows value then none
    else some { g with options := g.options ++ [(name, value)] }

def Shape.addPositional (shape : Shape) (g : Given) (value : String) : Option Given :=
  if g.positionals.length < shape.positionals then
    some { g with positionals := g.positionals ++ [value] }
  else none

/-- Reads arguments from left to right up to the first one that asks for help or is wrong. After
two hyphens alone there are no more options. -/
def Shape.scan (shape : Shape) (g : Given) : List String → Scan
  | [] => .given g
  | a :: rest =>
    match a.toList with
    | ['-', '-'] =>
      match rest.foldlM shape.addPositional g with
      | some g => .given g
      | none => .usage
    | '-' :: '-' :: cs =>
      match Text.splitFirst? '=' cs with
      | some (name, value) =>
        match shape.addOption g (String.ofList name) (String.ofList value) with
        | some g => shape.scan g rest
        | none => .usage
      | none =>
        if cs = "help".toList then .help
        else
          match rest with
          | [] => .usage
          | value :: rest =>
            if isFlag value then .usage
            else
              match shape.addOption g (String.ofList cs) value with
              | some g => shape.scan g rest
              | none => .usage
    | '-' :: 'h' :: _ => .help
    | '-' :: _ :: _ => .usage
    | _ =>
      match shape.addPositional g a with
      | some g => shape.scan g rest
      | none => .usage

def anyValue (_ : String) : Bool := true

def number? (s : String) : Option Nat := Text.unsigned? UInt64.size s.toList

def isNumber (s : String) : Bool := (number? s).isSome

def pubShape : Shape := ⟨[("reply", anyValue), ("server", anyValue)], 2⟩

def subShape : Shape := ⟨[("queue", anyValue), ("count", isNumber), ("server", anyValue)], 1⟩

def requestShape : Shape := ⟨[("timeout-ms", isNumber), ("server", anyValue)], 2⟩

def subcommand (shape : Shape) (topic : Topic) (env : String → Option String)
    (request : Given → String → List String → Request) (args : List String) : Invocation :=
  match shape.scan {} args with
  | .help => .help topic
  | .usage => .usage
  | .given g =>
    match g.positionals with
    | [] => .usage
    | subject :: rest =>
      .run (request g subject rest)
        (((g.option? "server").or (env "SUBLINE_SERVER")).getD defaultServer)

def topic? : List String → Option Topic
  | [] => some .general
  | ["pub"] => some .pub
  | ["sub"] => some .sub
  | ["request"] => some .request
  | ["help"] => some .help
  | _ => none

def invocation (env : String → Option String) : List String → Invocation
  | "pub" :: args =>
    subcommand pubShape .pub env
      (fun g subject rest ↦ .pub subject (rest.headD "") (g.option? "reply")) args
  | "sub" :: args =>
    subcommand subShape .sub env
      (fun g subject _ ↦ .sub subject (g.option? "queue") ((g.option? "count").bind number?)) args
  | "request" :: args =>
    subcommand requestShape .request env
      (fun g subject rest ↦ .request subject (rest.headD "")
        (((g.option? "timeout-ms").bind number?).getD defaultTimeoutMs)) args
  | "help" :: args => ((topic? args).map .help).getD .usage
  | "--help" :: _ => .help .general
  | "--version" :: _ => .version
  | a :: _ =>
    match a.toList with
    | '-' :: 'h' :: _ => .help .general
    | '-' :: 'V' :: _ => .version
    | _ => .usage
  | [] => .usage

end Herald.Cli
