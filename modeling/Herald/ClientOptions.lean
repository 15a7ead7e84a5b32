import Herald.Json.Printer
import Herald.Json.Reader
import Herald.Text.Basic

namespace Herald

structure ClientOptions where
  verbose : Bool := false
  pedantic : Bool := false
  reconnect : Bool := true
  maxReconnectAttempts : UInt32 := 10
  reconnectWaitMs : Nat := 2000
  readBufferSize : Option Nat := none
deriving DecidableEq, Repr

namespace ClientOptions

def defaultReadBufferSize : Nat := 64 * 1024

def uint32? (j : Json) : Option UInt32 := (j.nat? UInt32.size).map Nat.toUInt32

def ofValues? (verbose pedantic reconnect attempts wait buffer : Option Json) :
    Option ClientOptions := do
  let given {α : Type} (read : Json → Option α) (default : α) : Option Json → Option α
    | none => some default
    | some j => read j
  some {
    verbose := ← given Json.bool? false verbose
    pedantic := ← given Json.bool? false pedantic
    reconnect := ← given Json.bool? true reconnect
    maxReconnectAttempts := ← given uint32? 10 attempts
    reconnectWaitMs := ← given (Json.nat? UInt64.size) 2000 wait
    readBufferSize := ← Json.optional? (Json.nat? UInt64.size) buffer }

def value? (key : String) (ms : List (String × Json.Form)) : Option (Option Json) :=
  match Json.member? key ms with
  | none => none
  | some none => some none
  | some (some x) => (Json.ofForm? Json.maxDepth x).map some

def ofMembers? (ms : List (String × Json.Form)) : Option ClientOptions := do
  ofValues? (← value? "verbose" ms) (← value? "pedantic" ms) (← value? "reconnect" ms)
    (← value? "max_reconnect_attempts" ms) (← value? "reconnect_wait_ms" ms)
    (← value? "read_buffer_size" ms)

def ofElements? (xs : List Json.Form) : Option ClientOptions :=
  if 6 < xs.length then none
  else
    (xs.mapM (Json.ofForm? Json.maxDepth)).bind fun vs ↦
      ofValues? vs[0]? vs[1]? vs[2]? vs[3]? vs[4]? vs[5]?

def parse? (s : String) : Option ClientOptions :=
  match Json.Form.parse? s with
  | some (.obj ms) =>
    (ms.mapM fun m ↦ (Json.string? m.1).map fun key ↦ (key, m.2)).bind ofMembers?
  | some (.arr xs) => ofElements? xs
  | _ => none

def json (o : ClientOptions) : Json :=
  .obj ([("verbose", .bool o.verbose), ("pedantic", .bool o.pedantic),
    ("reconnect", .bool o.reconnect),
    ("max_reconnect_attempts", .ofNat o.maxReconnectAttempts.toNat),
    ("reconnect_wait_ms", .ofNat o.reconnectWaitMs)] ++
    (o.readBufferSize.map fun n ↦ ("read_buffer_size", Json.ofNat n)).toList)

def switch? (s : String) : Option Bool :=
  let word := String.ofList ((Text.trim s.toList).map Char.toLower)
  if ["1", "true", "yes", "on"].contains word then some true
  else if ["0", "false", "no", "off"].contains word then some false
  else none

/-- Puts the values that the environment sets over those of the options. A value that cannot be
read changes nothing. -/
def overlay (o : ClientOptions) (env : String → Option String) : ClientOptions :=
  let switch (name : String) (current : Bool) := ((env name).bind switch?).getD current
  let number (name : String) (bound : Nat) :=
    (env name).bind fun s ↦ Text.unsigned? bound s.toList
  { o with
    verbose := switch "SUBLINE_VERBOSE" o.verbose
    pedantic := switch "SUBLINE_PEDANTIC" o.pedantic
    reconnect := switch "SUBLINE_RECONNECT" o.reconnect
    maxReconnectAttempts := ((number "SUBLINE_MAX_RECONNECT_ATTEMPTS" UInt32.size).map
      Nat.toUInt32).getD o.maxReconnectAttempts
    reconnectWaitMs := (number "SUBLINE_RECONNECT_WAIT_MS" UInt64.size).getD o.reconnectWaitMs }

end ClientOptions

end Herald
