import Herald.Error
import Herald.Text.Basic
import Herald.Text.Quoted

namespace Herald

structure ServerUri where
  scheme : String
  host : String
  port : Nat
  user : Option String
  pass : Option String
deriving DecidableEq, Repr

namespace ServerUri

def defaultPort : Nat := 4222

inductive Fault
  | missingScheme
  | badHostOrPort
  | missingHost
deriving DecidableEq, Repr

def Fault.message : Fault → String → String
  | missingScheme, uri => "missing scheme in " ++ Text.quoted uri
  | badHostOrPort, uri => "invalid host or port in " ++ Text.quoted uri
  | missingHost, uri => "missing host in " ++ Text.quoted uri

def port? (cs : List Char) : Option Nat := Text.unsigned? UInt16.size cs

/-- Splits a host in brackets, or else one that ends at the last colon, from its port. -/
def hostPort? : List Char → Option (List Char × Nat)
  | '[' :: cs =>
    match Text.splitFirst? ']' cs with
    | some (host, []) => some (host, defaultPort)
    | some (host, ':' :: port) => (port? port).map (host, ·)
    | _ => none
  | cs =>
    match Text.splitLast? ':' cs with
    | some (host, port) => (port? port).map (host, ·)
    | none => some (cs, defaultPort)

def credentials : Option (List Char) → Option (List Char) × Option (List Char)
  | none => (none, none)
  | some cs =>
    match Text.splitFirst? ':' cs with
    | some (user, pass) => (some user, some pass)
    | none => (some cs, none)

/-- What stands before the path, the query and the fragment, cut at its last `@`. -/
def authority (cs : List Char) : Option (List Char) × List Char :=
  let cs := cs.takeWhile fun c ↦ c != '/' && c != '?' && c != '#'
  match Text.splitLast? '@' cs with
  | some (user, host) => (some user, host)
  | none => (none, cs)

def ofChars? (cs : List Char) : Except Fault ServerUri :=
  match Text.splitOn? "://".toList cs with
  | none | some ([], _) => .error .missingScheme
  | some (scheme, rest) =>
    let (user, pass) := credentials (authority rest).1
    match hostPort? (authority rest).2 with
    | none => .error .badHostOrPort
    | some ([], _) => .error .missingHost
    | some (host, port) =>
      .ok ⟨String.ofList scheme, String.ofList host, port, user.map String.ofList,
        pass.map String.ofList⟩

/-- Reads `scheme://[user[:pass]@]host[:port]`, with anything after it from a slash, a question
mark or a hash sign on. -/
def parse? (uri : String) : Except ClientError ServerUri :=
  match ofChars? uri.toList with
  | .ok u => .ok u
  | .error fault => .error (.invalidUri (fault.message uri))

def socketAddress (u : ServerUri) : String :=
  if u.host.toList.contains ':' then "[" ++ u.host ++ "]:" ++ toString u.port
  else u.host ++ ":" ++ toString u.port

def text (u : ServerUri) : String := u.scheme ++ "://" ++ u.socketAddress

/-- The parts of the address but for the password. -/
def debug (u : ServerUri) : String :=
  let user := match u.user with
    | some user => "Some(" ++ Text.quoted user ++ ")"
    | none => "None"
  "ServerUri \x7b scheme: " ++ Text.quoted u.scheme ++ ", host: " ++ Text.quoted u.host ++
    ", port: " ++ toString u.port ++ ", user: " ++ user ++ ", .. \x7d"

end ServerUri

end Herald
