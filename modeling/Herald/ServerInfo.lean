import Herald.Json.Printer
import Herald.Json.Reader

namespace Herald

structure ServerInfo where
  serverId : Option String := none
  version : Option String := none
  host : Option String := none
  port : Option Nat := none
  maxPayload : Option Nat := none
  authRequired : Bool := false
  extra : Json.Members := []

namespace ServerInfo

def typedKeys : List String :=
  ["server_id", "version", "host", "port", "max_payload", "auth_required"]

/-- Reads the members of an object in the order in which they are written. A typed key must not
stand twice; of the other members with one key the last counts. -/
def ofMembers? (ms : List (String × Json)) : Option ServerInfo := do
  let serverId ← Json.optional? Json.text? (← Json.member? "server_id" ms)
  let version ← Json.optional? Json.text? (← Json.member? "version" ms)
  let host ← Json.optional? Json.text? (← Json.member? "host" ms)
  let port ← Json.optional? (Json.nat? UInt16.size) (← Json.member? "port" ms)
  let maxPayload ← Json.optional? (Json.nat? UInt64.size) (← Json.member? "max_payload" ms)
  let authRequired ← match ← Json.member? "auth_required" ms with
    | none => some false
    | some j => j.bool?
  let extra := (ms.filter fun m ↦ !typedKeys.contains m.1).foldl
    (fun done m ↦ Json.Members.insert m.1 m.2 done) []
  some ⟨serverId, version, host, port, maxPayload, authRequired, extra⟩

def membersOf? : List (List Json.Piece × Json.Form) → Option (List (String × Json))
  | [] => some []
  | (ps, x) :: ms =>
    match Json.string? ps, Json.ofForm? (Json.maxDepth - 1) x, membersOf? ms with
    | some key, some value, some rest => some ((key, value) :: rest)
    | _, _, _ => none

def parse? (s : String) : Option ServerInfo :=
  match Json.Form.parse? s with
  | some (.obj ms) => (membersOf? ms).bind ofMembers?
  | _ => none

def members (i : ServerInfo) : Json.Members :=
  let some? (key : String) (value : Option Json) := (value.map fun v ↦ (key, v)).toList
  some? "server_id" (i.serverId.map .str) ++ some? "version" (i.version.map .str) ++
    some? "host" (i.host.map .str) ++ some? "port" (i.port.map Json.ofNat) ++
    some? "max_payload" (i.maxPayload.map Json.ofNat) ++
    [("auth_required", .bool i.authRequired)] ++ i.extra

def get? (i : ServerInfo) (key : String) : Option Json := i.members.get? key

end ServerInfo

end Herald
