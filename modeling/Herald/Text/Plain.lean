import Herald.Bytes

namespace Herald.Text

/-- Where a reader of terminal output stands: in the text, after an escape character or in the short
sequence that it begins, in a sequence of parameters, in a command that a bell ends, or at one of
the places of a device string, whose introduction has parameters and then intermediates. -/
inductive Control
  | ground
  | escape
  | short
  | parameters
  | command
  | device
  | deviceParameters
  | deviceIntermediates
  | string
deriving DecidableEq, Repr

namespace Control

def isMove (c : Char) : Bool := c == '\t' || c == '\n' || c == '\x0C' || c == '\r'

def shows (c : Char) : Bool := isMove c || (' ' ≤ c && c != '\x7F')

/-- An octet of value `0x9C` ends a string, wherever in a character it stands. -/
def endsString (c : Char) : Bool := (Bytes.ofString (String.singleton c)).contains 0x9C

def follow (s : Control) (c : Char) : Control :=
  match s with
  | ground => ground
  | escape =>
    if c < '0' then short
    else if c == '[' then parameters
    else if c == ']' then command
    else if c == 'P' then device
    else if c == 'X' || c == '^' || c == '_' then string
    else ground
  | short => if c < '0' then short else ground
  | parameters => if c < '@' then parameters else ground
  | command => command
  | device =>
    if c < '0' then deviceIntermediates else if c < '@' then deviceParameters else string
  | deviceParameters =>
    if c < '0' then deviceIntermediates else if c < '<' then deviceParameters else string
  | deviceIntermediates => if c < '0' then deviceIntermediates else string
  | string => string

/-- Where the reader stands after a character, and whether the character is to be seen. White space
is seen even in the midst of a sequence, but not in a command or a device string. -/
def step (s : Control) (c : Char) : Bool × Control :=
  if c == '\x1B' then (false, escape)
  else if c == '\x18' || c == '\x1A' then (false, ground)
  else
    match s with
    | ground => (shows c, ground)
    | command => (false, if c == '\x07' then ground else command)
    | string => (false, if endsString c then ground else string)
    | s => (isMove c && (s == escape || s == short || s == parameters),
        if ' ' ≤ c && c ≤ '~' then follow s c else s)

/-- The characters to be seen. After one of them the next ones are seen as well, until a control
character takes up the sequence where it was left. A character beyond ASCII that is seen ends the
sequence. -/
def filter (s : Control) (seen : Bool) : List Char → List Char
  | [] => []
  | c :: cs =>
    let (seen, s) := if seen && shows c then (true, if c.toNat < 128 then s else ground)
      else s.step c
    if seen then c :: filter s seen cs else filter s seen cs

end Control

/-- A text as it is printed where there is no terminal: without control characters other than white
space, and without the sequences that control a terminal. -/
def plain (s : String) : String := String.ofList (Control.ground.filter false s.toList)

def bold (s : String) : String := "\x1B[1m" ++ s ++ "\x1B[0m"

def heading (s : String) : String := "\x1B[1m\x1B[4m" ++ s ++ "\x1B[0m"

end Herald.Text
