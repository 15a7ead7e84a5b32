import Herald.ClientOptions
import Herald.Error
import Herald.Frame.Line
import Herald.Json.Basic
import Herald.ServerInfo

namespace Herald

/-- What an application does with its client. A callback is a script of further actions; `id` and
`tag` are labels by which the application knows its callbacks. -/
inductive Action
  | onError (script : List Action)
  | onConnect (script : List Action)
  | publish (subject : String) (payload : Bytes)
  | publishReply (subject reply : String) (payload : Bytes)
  | publishAck (subject : String) (payload : Bytes) (id : Json) (script : List Action)
  | flush (id : Json) (script : List Action)
  | subscribe (subject : String) (queue : Option String) (max : Option Nat) (tag : Json)
      (script : List Action)
  | request (subject : String) (payload : Bytes) (queue : Option String) (max : Option Nat)
      (tag : Json) (script : List Action)
  | unsubscribe (sid : Nat)
  | unsubscribeAfter (sid max : Nat)
  | timeout (sid afterMs expected : Nat) (auto : Bool) (id : Json) (script : List Action)
  | stop
  | serverInfo
  | lastError
  | options
  | echo (subject : String)
  | respond (payload : Bytes)

def Action.name : Action → String
  | onError .. => "on_error"
  | onConnect .. => "on_connect"
  | publish .. => "publish"
  | publishReply .. => "publish_reply"
  | publishAck .. => "publish_ack"
  | flush .. => "flush"
  | subscribe .. => "subscribe"
  | request .. => "request"
  | unsubscribe .. => "unsubscribe"
  | unsubscribeAfter .. => "unsubscribe_after"
  | timeout .. => "timeout"
  | stop => "stop"
  | serverInfo => "server_info"
  | lastError => "last_error"
  | options => "options"
  | echo .. => "echo"
  | respond .. => "respond"

structure Callback where
  label : Json
  script : List Action

inductive Reply
  | sid (n : Nat)
  | serverInfo (info : Option ServerInfo)
  | lastError (e : Option ClientError)
  | options (o : ClientOptions)
  | started
  | failed (e : ClientError)
  | noConnection

inductive Notice
  | message (tag : Json) (m : Message)
  | connected
  | error (e : ClientError)
  | acked (id : Json)
  | timeout (id : Json) (sid : Nat)
  | did (name : String) (reply : Reply)
  | during (name : String) (phase : String)

end Herald
