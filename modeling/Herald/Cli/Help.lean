import Herald.Cli.Arguments
import Herald.Text.Plain
import Herald.Text.Quoted

namespace Herald.Cli

def versionText : String := "subline 0.1.0\n"

def usageText : String :=
  "error: invalid arguments\n\nUsage: subline <COMMAND>\n\nFor more information, try --help.\n"

def columns (rows : List (String × String)) : String :=
  let length (r : String × String) : Nat := (Text.plain r.1).length
  let width := (rows.map length).foldl max 0 + 2
  let blank (n : Nat) : List Char := List.replicate n ' '
  let row (r : String × String) : String :=
    let text := r.2.toList.flatMap fun c ↦ if c = '\n' then '\n' :: blank (width + 2) else [c]
    String.ofList (blank 2 ++ r.1.toList ++ blank (width - length r) ++ text ++ ['\n'])
  String.join (rows.map row)

def withDefault (text value : String) : String :=
  text ++ " [default: " ++ (if value = "" then Text.quoted value else value) ++ "]"

def valued (name value : String) : String := "    " ++ Text.bold name ++ " " ++ value

def short (name long : String) : String := Text.bold name ++ ", " ++ Text.bold long

def serverRow (env : String → Option String) : String × String :=
  (valued "--server" "<SERVER>",
    withDefault ("Server URI (scheme://[user[:pass]@]host[:port]) [env: SUBLINE_SERVER=" ++
      (env "SUBLINE_SERVER").getD "" ++ "]") defaultServer)

def helpRow : String × String := (short "-h" "--help", "Print help")

def titled (title : String) (rows : List (String × String)) : String :=
  if rows.isEmpty then "" else "\n" ++ Text.heading title ++ "\n" ++ columns rows

def page (about name usage : String) (commands arguments options : List (String × String)) :
    String :=
  about ++ "\n\n" ++ Text.heading "Usage:" ++ " " ++ Text.bold name ++ " " ++ usage ++ "\n" ++
    titled "Commands:" commands ++ titled "Arguments:" arguments ++
    titled "Options:" options

def helpPage (env : String → Option String) : Topic → String
  | .general =>
    page "Publish/subscribe client for line-protocol message servers" "subline" "<COMMAND>"
      [(Text.bold "pub", "Publish one message"),
        (Text.bold "sub", "Print messages received on a subject"),
        (Text.bold "request", "Send a request and print the first reply"),
        (Text.bold "help", "Print this message or the help of the given subcommand(s)")]
      [] [helpRow, (short "-V" "--version", "Print version")]
  | .pub =>
    page "Publish one message" "subline pub" "[OPTIONS] <SUBJECT> [PAYLOAD]" []
      [("<SUBJECT>", "Subject to publish on"), ("[PAYLOAD]", withDefault "Message body" "")]
      [(valued "--reply" "<REPLY>", "Reply subject attached to the message"), serverRow env,
        helpRow]
  | .sub =>
    page "Print messages received on a subject" "subline sub" "[OPTIONS] <SUBJECT>" []
      [("<SUBJECT>", "Subject to subscribe to (wildcards allowed)")]
      [(valued "--queue" "<QUEUE>", "Join a queue group"),
        (valued "--count" "<COUNT>", "Exit after this many messages"), serverRow env, helpRow]
  | .request =>
    page "Send a request and print the first reply" "subline request"
      "[OPTIONS] <SUBJECT> [PAYLOAD]" []
      [("<SUBJECT>", "Subject to send the request to"),
        ("[PAYLOAD]", withDefault "Request body" "")]
      [(valued "--timeout-ms" "<TIMEOUT_MS>",
          withDefault "Give up after this many milliseconds" (toString defaultTimeoutMs)),
        serverRow env, helpRow]
  | .help =>
    page "Print this message or the help of the given subcommand(s)" "subline help"
      "[COMMAND]..." [] [("[COMMAND]...", "Print help for the subcommand(s)")] []

/-- Styles are kept where there is no terminal only if the environment forces them and does not
forbid them. -/
def keepsStyles (env : String → Option String) : Bool :=
  let isSet (name : String) : Bool := (env name).any (· ≠ "")
  isSet "CLICOLOR_FORCE" && !isSet "NO_COLOR"

def helpText (env : String → Option String) (topic : Topic) : String :=
  if keepsStyles env then helpPage env topic else Text.plain (helpPage env topic)

end Herald.Cli
