namespace Herald

inductive IoErrorKind
  | notFound | permissionDenied | connectionRefused | connectionReset | hostUnreachable
  | networkUnreachable | connectionAborted | notConnected | addrInUse | addrNotAvailable
  | networkDown | brokenPipe | alreadyExists | wouldBlock | invalidInput | invalidData
  | timedOut | writeZero | interrupted | unsupported | unexpectedEof | outOfMemory | other
deriving DecidableEq, Repr

namespace IoErrorKind

def all : List IoErrorKind :=
  [notFound, permissionDenied, connectionRefused, connectionReset, hostUnreachable,
    networkUnreachable, connectionAborted, notConnected, addrInUse, addrNotAvailable,
    networkDown, brokenPipe, alreadyExists, wouldBlock, invalidInput, invalidData,
    timedOut, writeZero, interrupted, unsupported, unexpectedEof, outOfMemory, other]

def name : IoErrorKind → String
  | notFound => "NotFound"
  | permissionDenied => "PermissionDenied"
  | connectionRefused => "ConnectionRefused"
  | connectionReset => "ConnectionReset"
  | hostUnreachable => "HostUnreachable"
  | networkUnreachable => "NetworkUnreachable"
  | connectionAborted => "ConnectionAborted"
  | notConnected => "NotConnected"
  | addrInUse => "AddrInUse"
  | addrNotAvailable => "AddrNotAvailable"
  | networkDown => "NetworkDown"
  | brokenPipe => "BrokenPipe"
  | alreadyExists => "AlreadyExists"
  | wouldBlock => "WouldBlock"
  | invalidInput => "InvalidInput"
  | invalidData => "InvalidData"
  | timedOut => "TimedOut"
  | writeZero => "WriteZero"
  | interrupted => "Interrupted"
  | unsupported => "Unsupported"
  | unexpectedEof => "UnexpectedEof"
  | outOfMemory => "OutOfMemory"
  | other => "Other"

def ofName? (s : String) : Option IoErrorKind := all.find? (·.name == s)

end IoErrorKind

structure IoError where
  kind : IoErrorKind
  message : String
deriving DecidableEq, Repr

def IoError.ofKind (kind : IoErrorKind) : IoError := ⟨kind, kind.name⟩

inductive ClientError
  | protocol (text : String)
  | unknownProtocol (line : String)
  | disconnected (uri : String)
  | couldNotConnect (uri : String)
  | invalidUri (fault : String)
  | alreadyStarted
  | io (error : IoError)
deriving DecidableEq, Repr

namespace ClientError

def message : ClientError → String
  | protocol text => "Server error: " ++ text
  | unknownProtocol line => "Unknown protocol: " ++ line
  | disconnected uri => "Client disconnected from server on " ++ uri ++ "."
  | couldNotConnect uri => "Could not connect to server on " ++ uri
  | invalidUri fault => "Invalid server URI: " ++ fault
  | alreadyStarted => "Client already started"
  | io error => error.message

def isProtocol : ClientError → Bool
  | protocol _ | unknownProtocol _ => true
  | _ => false

def isConnection : ClientError → Bool
  | disconnected _ | couldNotConnect _ | io _ => true
  | _ => false

def ioKind? : ClientError → Option IoErrorKind
  | io error => some error.kind
  | _ => none

end ClientError

end Herald
