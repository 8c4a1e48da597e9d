import Eiptnd.Library.Reactive
import Eiptnd.Library.Tokens
import Eiptnd.Library.Lines

/-! The translator of the Wialon IPS protocol, as `wialon_plugin.cpp` has it.

A line is cut into tokens, the tokens drive a state machine, and the end of the
line commits the command. What the translator does to its surroundings is the
output of its handlers; an exception, or an access the language leaves undefined,
is a fault and ends the daemon. Logging is left out. -/
namespace Eiptnd.Wialon

open Reactive

/-- `std::string`: a sequence of bytes. -/
abbrev Str := List Char

def crlf : Str := "\r\n".toList

/-- What the translator takes from Boost besides containers. -/
structure Boost where
  /-- `lexical_cast<std::size_t>` of a tree value, `none` where it throws. -/
  lexicalCast : Str → Option Nat
  /-- `create_escapes` of the JSON writer. -/
  createEscapes : Str → Str

/-- `lexical_cast<std::string>` of a `std::size_t`. -/
def decimal (n : Nat) : Str := Nat.toDigits 10 n

inductive ParserState
  | initial | imei | command | body | hashFirst | hashSecond | bar | end_
  | skipToBarOrEnd | skipToEnd | binaryData
  deriving DecidableEq, Repr

inductive Command
  | login | data | ping | shortdata | blackbox | message | image
  deriving DecidableEq, Repr

/-- Number of body tokens and command of each command name. -/
def estimates : List (Str × Nat × Command) :=
  [("L".toList, 2, .login),
   ("D".toList, 16, .data),
   ("P".toList, 0, .ping),
   ("SD".toList, 10, .shortdata),
   ("B".toList, 16, .blackbox),
   ("M".toList, 1, .message),
   ("I".toList, 6, .image)]

/-- Names of the body tokens, last one first. -/
def fields : Command → List Str
  | .login => ["password".toList, "imei".toList]
  | .data | .blackbox =>
    ["params".toList, "ibutton".toList, "adc".toList, "outputs".toList, "inputs".toList,
     "hdop".toList, "sats".toList, "height".toList, "course".toList, "speed".toList,
     "lon2".toList, "lon1".toList, "lat2".toList, "lat1".toList, "time".toList, "date".toList]
  | .ping => []
  | .shortdata =>
    ["sats".toList, "height".toList, "course".toList, "speed".toList,
     "lon2".toList, "lon1".toList, "lat2".toList, "lat1".toList, "time".toList, "date".toList]
  | .message => ["message".toList]
  | .image =>
    ["name".toList, "time".toList, "date".toList, "count".toList, "ind".toList, "sz".toList]

/-- A `dptree` as the parser builds it: named values under the root, in order. -/
abbrev Tree := List (Str × Str)

/-- `put`: an existing child gets the new value, a missing one is added at the back. -/
def Tree.put (key value : Str) : Tree → Tree
  | [] => [(key, value)]
  | (k, v) :: rest => if k = key then (k, value) :: rest else (k, v) :: Tree.put key value rest

/-- Members of `wialon_plugin`. The trees it has allocated stand in `trees`, and
`tree` is the place of the current one there. -/
structure Plugin where
  sbuf : Str
  answerBuffer : Str
  estimate : Nat
  tree : Option Nat
  multicommand : Nat
  authenticated : Bool
  isParserError : Bool
  state : ParserState
  cmd : Str
  currentCmd : Command
  trees : List Tree
  deriving DecidableEq, Repr

/-- The constructor initialises `authenticated_` and `state_`; strings, buffers and
pointers start empty and everything else is indeterminate. -/
structure Plugin.Fresh (p : Plugin) : Prop where
  sbuf : p.sbuf = []
  answerBuffer : p.answerBuffer.length = 32
  tree : p.tree = none
  authenticated : p.authenticated = false
  state : p.state = .initial
  cmd : p.cmd = []
  trees : p.trees = []

/-- What the translator does to its surroundings. -/
inductive Effect
  /-- A message handed to `parse_string`. -/
  | parseString (message : Str)
  | parserError (message : Str)
  | authenticate (imei password : Str)
  /-- The tree handed to `process_data` and what it holds at that moment. -/
  | processData (tree : Option Nat) (content : Tree)
  /-- A call of `answer`, with the command it is made under. -/
  | answer (cmd message : Str)
  | doWrite (reply : Str)
  | doReadUntil (delim : Str)
  deriving DecidableEq, Repr

inductive Fault
  | nullTree | badPath | badLexicalCast | outOfRange | beforeBegin
  deriving DecidableEq, Repr

abbrev Result := Outcome Plugin Effect Fault

def Plugin.content (p : Plugin) : Tree :=
  match p.tree with
  | some t => p.trees.getD t []
  | none => []

/-- `boost::make_shared<dptree>().swap(tree_)`. -/
def Plugin.newTree (p : Plugin) : Plugin :=
  { p with tree := some p.trees.length, trees := p.trees ++ [[]] }

def parserError (message : Str) (p : Plugin) : Result :=
  .emit { p with isParserError := true } [.parserError message]

/-- Characters the reply buffer holds. -/
def answerCapacity : Nat := 32

def replyText (cmd message : Str) : Str :=
  "#A".toList ++ cmd ++ "#".toList ++ message ++ crlf

/-- The reply is written over the start of the buffer, as far as it fits; the
bytes sent are the buffer's first `size` ones. -/
def answer (message : Str) (p : Plugin) : Result :=
  let size := 2 + p.cmd.length + 1 + message.length + 2
  let text := replyText p.cmd message
  let buffer := (text ++ p.answerBuffer.drop text.length).take answerCapacity
  .emit { p with answerBuffer := buffer } [.answer p.cmd message, .doWrite (buffer.take size)]

def storeData (p : Plugin) : Result :=
  .emit p [.processData p.tree p.content]

def handleAuthenticate (ok : Bool) (p : Plugin) : Result :=
  let p := { p with state := .initial }
  if ok then answer "1".toList { p with authenticated := true }
  else answer "01".toList p

def handleProcessData (ok : Bool) (p : Plugin) : Result :=
  -- The members as they are by now, whatever line the record was on.
  if p.currentCmd = Command.blackbox then
    .ok { p with multicommand := p.multicommand + 1 }
  else if ok then answer "1".toList p
  else if p.currentCmd = Command.data ∨ p.currentCmd = Command.shortdata then answer "-1".toList p
  else answer "0".toList p

section Parser

variable (boost : Boost)

def unexpectedToken (expected got : Str) (p : Plugin) : Result :=
  parserError ("Unexpected token, expected: '".toList ++ boost.createEscapes expected
    ++ "' got: '".toList ++ boost.createEscapes got ++ "'".toList) p

/-- `granted` is what `request_router::authenticate`, which calls back before it
returns, answers should this step ask. -/
def commitCommand (granted : Bool) (p : Plugin) : Result :=
  match p.tree with
  | none => .fail p .nullTree
  | some _ =>
    match p.currentCmd with
    | .login =>
      if p.isParserError then answer "0".toList p
      else
        match p.content.lookup "imei".toList, p.content.lookup "password".toList with
        | some imei, some password =>
          (Outcome.emit p [.authenticate imei password]).andThen (handleAuthenticate granted)
        | _, _ => .fail p .badPath
    | .shortdata | .data => storeData p
    | .ping => answer [] p
    | .message => storeData p
    | .blackbox => answer (decimal p.multicommand) p
    | .image =>
      -- The state is set before the tree is asked, so that a throw leaves it so.
      let p := { p with state := .binaryData }
      match p.content.lookup "sz".toList with
      | none => .fail p .badPath
      | some sz =>
        match boost.lexicalCast sz with
        | none => .fail p .badLexicalCast
        | some n => .ok { p with estimate := n }

/-- `consume_token("\r\n")`, up to the return to `STATE_INITIAL`. -/
def endOfLine (granted : Bool) (p : Plugin) : Result :=
  match p.state with
  | .body =>
    if p.currentCmd ≠ Command.blackbox then
      (parserError ("Unexpected end of body (still remaining ".toList ++ decimal p.estimate
        ++ " parameters)".toList) p).andThen (commitCommand boost granted)
    -- The last record is stored, and acknowledged in the same step.
    else (storeData p).andThen (commitCommand boost granted)
  | .bar => (storeData p).andThen (commitCommand boost granted)
  | .skipToBarOrEnd => commitCommand boost granted p
  | .command =>
    if !p.authenticated then unexpectedToken boost "L".toList crlf p
    else unexpectedToken boost "B|D|I|M|P|SD".toList crlf p
  | .hashFirst | .hashSecond => unexpectedToken boost "#".toList crlf p
  | .end_ => commitCommand boost granted p
  | .initial | .imei | .skipToEnd | .binaryData => .ok p

def consumeEnd (granted : Bool) (p : Plugin) : Result :=
  (endOfLine boost granted p).andThen fun p => .ok { p with state := .initial }

/-- `STATE_BODY` with a token that is a field of the body. -/
def consumeField (tok : Str) (p : Plugin) : Result :=
  if p.estimate = 0 then .ok p
  else
    match (fields p.currentCmd)[p.estimate - 1]? with
    | none => .fail p .outOfRange
    | some name =>
      match p.tree with
      | none => .fail p .nullTree
      | some t =>
        .ok { p with estimate := p.estimate - 1, trees := p.trees.modify t (Tree.put name tok) }

/-- `STATE_BODY`. -/
def consumeBody (tok : Str) (p : Plugin) : Result :=
  if p.currentCmd = Command.blackbox ∧ tok = "|".toList then
    (storeData p).andThen fun p =>
      -- The next record starts with a count and a tree of its own.
      match estimates.lookup p.cmd with
      | none => .fail p .outOfRange
      | some (estimate, currentCmd) =>
        .ok { p with estimate := estimate, currentCmd := currentCmd }.newTree
  else
    (consumeField tok p).andThen fun p =>
      if p.estimate = 0 then
        .ok { p with state := if p.currentCmd ≠ Command.blackbox then .end_ else .bar }
      else .ok p

/-- `STATE_COMMAND`. -/
def consumeCommand (tok : Str) (p : Plugin) : Result :=
  let p := { p with cmd := tok }
  match estimates.lookup tok with
  | none =>
    parserError ("Unknown command: '".toList ++ tok ++ "'".toList) { p with state := .skipToEnd }
  | some (estimate, currentCmd) =>
    let p := { p with estimate := estimate, currentCmd := currentCmd }
    -- The command is set already when the connection turns out not to be open.
    if !p.authenticated && p.currentCmd ≠ Command.login then .ok { p with state := .skipToEnd }
    else .ok { p with state := .hashSecond }

def notInitialized : Str := "<not initialized>".toList

/-- `STATE_INITIAL`: what was left of an earlier line is forgotten. -/
def consumeInitial (p : Plugin) : Result :=
  .ok { p.newTree with
    isParserError := false, multicommand := 0, cmd := notInitialized, state := .hashFirst }

def consumeToken (granted : Bool) (tok : Str) (p : Plugin) : Result :=
  if tok = crlf then consumeEnd boost granted p
  else
    match p.state with
    | .initial => consumeInitial p
    | .imei => .ok { p with state := .hashFirst }
    | .command => consumeCommand tok p
    | .body => consumeBody tok p
    | .hashFirst =>
      if tok = "#".toList then .ok { p with state := .command }
      else unexpectedToken boost "#".toList tok { p with state := .skipToEnd }
    | .hashSecond =>
      if tok = "#".toList then .ok { p with state := .body }
      else unexpectedToken boost "#".toList tok { p with state := .skipToEnd }
    | .bar =>
      -- Neither the count nor the tree is reset here,
      (if tok = "|".toList then .ok { p with state := .body }
        else unexpectedToken boost "|".toList tok { p with state := .skipToBarOrEnd }).andThen storeData
    | .skipToBarOrEnd =>
      -- nor here.
      if tok = "|".toList then .ok { p with state := .body } else .ok p
    | .end_ => unexpectedToken boost "\\r\\n".toList tok { p with state := .skipToEnd }
    | .skipToEnd | .binaryData => .ok p

def consumeTokens (granted : Bool) : List Str → Plugin → Result
  | [], p => .ok p
  | tok :: toks, p => (consumeToken boost granted tok p).andThen (consumeTokens granted toks)

/-- `char_separator(";", "#|", keep_empty_tokens)`. -/
def tokens (message : Str) : List Str :=
  Tokens.tokens (· == ';') (fun c => c == '#' || c == '|') message

def parseString (granted : Bool) (message : Str) (p : Plugin) : Result :=
  consumeTokens boost granted (tokens message) p

/-- A line as `handle_read` treats it once it has it whole. -/
def handleLine (granted : Bool) (message : Str) (p : Plugin) : Result :=
  (parseString boost granted message p).andThen (consumeToken boost granted crlf)

end Parser

end Eiptnd.Wialon
