import N2nGo.Lib.Stream
import N2nGo.Lib.Encoding
import N2nGo.Lib.Text
import N2nGo.Lib.Table
import N2nGo.Lib.Url

/-!
# The management socket

Package `management`: a daemon listens on a socket for commands. A client sends its password
in a line of its own and then a command in a line of its own; a response is a message behind
its length.

The server reads lines, so what it does is a function of the characters it receives, in
whatever pieces they arrive. A `Session` is one connection as the server sees it. What the
handlers compute is left to them.
-/

set_option autoImplicit false

namespace N2nGo.Management

open N2nGo.Lib

/-! ## Messages -/

/-- GOLINE: management/server.go:320-358 -/
inductive RecvErr where
  | closedBeforeLength
  | closedInLength
  | zeroLength
  | closedBeforeBody
  | closedInBody
  deriving DecidableEq

/-- GOLINE: management/server.go:320-358 -/
def recvMessage (reader : Incoming) : Go (Except RecvErr Bytes × Incoming) :=
  match reader.readFull 4 with
  | (.error .eof, reader) => .ok (.error .closedBeforeLength, reader)
  | (.error .unexpectedEOF, reader) => .ok (.error .closedInLength, reader)
  | (.ok lenBytes, reader) => do
    let messageLen ← readUint32 lenBytes
    if messageLen = 0 then .ok (.error .zeroLength, reader)
    else
      match reader.readFull messageLen.toNat with
      | (.error .eof, reader) => .ok (.error .closedBeforeBody, reader)
      | (.error .unexpectedEOF, reader) => .ok (.error .closedInBody, reader)
      | (.ok messageBytes, reader) => .ok (.ok messageBytes, reader)

/-- As many calls as there are messages to expect. -/
def recvMessages : ℕ → Incoming → Go (List (Except RecvErr Bytes) × Incoming)
  | 0, reader => .ok ([], reader)
  | n + 1, reader => do
    let (res, reader) ← recvMessage reader
    let (results, reader) ← recvMessages n reader
    .ok (res :: results, reader)

/-- GOLINE: management/server.go:360-384 -/
inductive SendErr where
  | shortwriteMessageBytes (n : ℕ)
  deriving DecidableEq

/-- What is written, when every write succeeds. A message that is too long for its length field
is an error.
GOLINE: management/server.go:360-384 -/
def sendMessage (message : Bytes) : Except SendErr Bytes :=
  let messageLen := UInt32.ofNat message.length
  if message.length ≠ messageLen.toNat then .error (.shortwriteMessageBytes message.length)
  else .ok (putUint32 messageLen ++ message)

/-- One message after another. -/
def sendMessages : List Bytes → Except SendErr Bytes
  | [] => .ok []
  | message :: messages => do
    let first ← sendMessage message
    let others ← sendMessages messages
    .ok (first ++ others)

/-! ## The server -/

/-- `strings.ToLower`. -/
structure Platform where
  toLower : Text → Text

/-- GOLINE: management/server.go:38-46 -/
structure CommandInfo where
  handler : List Text → Except Text Text
  description : Text

/-- GOLINE: management/server.go:49-58 -/
structure ManagementServer where
  handlers : Table Text CommandInfo
  password : Text

/-- GOLINE: management/server.go:91-103 -/
def registerHandler (P : Platform) (s : ManagementServer) (command description : Text)
    (handler : List Text → Except Text Text) : ManagementServer :=
  { s with handlers := s.handlers.insert (P.toLower command) ⟨handler, description⟩ }

/-- GOLINE: management/server.go:25-27 -/
def okAuthString : Bytes := ascii "OK:AUTHENTICATED"
def nokAuthString : Bytes := ascii "NOK:UNAUTHENTICATED"

/-- `fmt.Fprintln`. -/
def println (line : Bytes) : Bytes := line ++ [10]

/-- A call of a handler. -/
structure Call where
  command : Text
  args : List Text
  deriving DecidableEq

/-- Where the server is with a connection. -/
inductive Phase where
  | password
  | commands
  | closed
  deriving DecidableEq

/-- One connection: the line that has begun, what was written, and which handlers were called. -/
structure Session where
  phase : Phase
  pending : Text
  out : Bytes
  calls : List Call
  deriving DecidableEq

/-- GOLINE: management/server.go:206-217 -/
def start (s : ManagementServer) : Session :=
  ⟨if s.password ≠ [] then .password else .commands, [], [], []⟩

/-- The first line.
GOLINE: management/server.go:239-249 -/
def authenticate (s : ManagementServer) (c : Session) (clientPass : Text) : Session :=
  if Text.trimSpace clientPass ≠ s.password then
    { c with phase := .closed, out := c.out ++ println nokAuthString }
  else { c with phase := .commands, out := c.out ++ println okAuthString }

/-- The response to a command, and the handler that was called for it.
GOLINE: management/server.go:289-310 -/
def respond (P : Platform) (s : ManagementServer) (cmdLine : Text) : Text × List Call :=
  let parts := Text.fields cmdLine
  -- a line that is not blank has a first part
  let command := P.toLower (parts.headD [])
  let args := parts.tail
  match s.handlers.lookup command with
  | some cmdInfo =>
    match cmdInfo.handler args with
    | .ok response => (response, [⟨command, args⟩])
    | .error err =>
      (Text.ofString "mgmt: error executing " ++ command ++ Text.ofString ": " ++ err,
        [⟨command, args⟩])
  | none =>
    (Text.ofString "Error: Unknown command '" ++ command ++ Text.ofString "'. Try 'help'.", [])

def quit : Text := Text.ofString "quit"

/-- One round of the loop over the commands.
GOLINE: management/server.go:278-316 -/
def execute (P : Platform) (s : ManagementServer) (c : Session) (cmdLine : Text) : Session :=
  let cmdLine := Text.trimSpace cmdLine
  if cmdLine = [] then c
  else if cmdLine = quit then
    { c with phase := .closed, out := c.out ++ println (ascii "OK: Bye!") }
  else
    let answered := respond P s cmdLine
    let c := { c with calls := c.calls ++ answered.2 }
    match sendMessage answered.1.bytes with
    | .error _ => { c with phase := .closed }
    | .ok packet => { c with out := c.out ++ packet }

/-- One more character from the client; `ReadString` returns at a newline, with it.
GOLINE: management/server.go:206-318 -/
def receive (P : Platform) (s : ManagementServer) (c : Session) (r : Rune) : Session :=
  match c.phase with
  | .closed => c
  | .password =>
    if r = Text.newline then authenticate s { c with pending := [] } (c.pending ++ [r])
    else { c with pending := c.pending ++ [r] }
  | .commands =>
    if r = Text.newline then execute P s { c with pending := [] } (c.pending ++ [r])
    else { c with pending := c.pending ++ [r] }

def feed (P : Platform) (s : ManagementServer) (c : Session) (input : Text) : Session :=
  input.foldl (receive P s) c

/-- What may happen to a connection. -/
inductive Event where
  | receives (input : Text)
  | timeout
  | disconnect

/-- A read that fails ends the connection.
GOLINE: management/server.go:222-234, 258-273 -/
def interrupt (c : Session) (timeout : Bool) : Session :=
  match c.phase with
  | .closed => c
  | .password => { c with phase := .closed, out := c.out ++ println nokAuthString }
  | .commands =>
    { c with
      phase := .closed
      out := if timeout then c.out ++ println (ascii "error: Read timeout") else c.out }

def step (P : Platform) (s : ManagementServer) (c : Session) : Event → Session
  | .receives input => feed P s c input
  | .timeout => interrupt c true
  | .disconnect => interrupt c false

/-- A connection from its start. -/
def serve (P : Platform) (s : ManagementServer) (events : List Event) : Session :=
  events.foldl (step P s) (start s)

/-! ## The client -/

/-- GOLINE: management/client.go:18-21 -/
structure ManagementClient where
  password : Text

/-- GOLINE: management/client.go:43-97 -/
inductive ClientErr where
  | readingAuthResponse
  | authFailure
  | readingResponse (err : RecvErr)
  deriving DecidableEq

/-- How the bytes that the server writes come to the client. -/
structure Delivery where
  cut : Bytes → Incoming
  rest_cut : ∀ b, (cut b).rest = b

/-- The command is sent and its response read.
GOLINE: management/client.go:79-96 -/
def requestResponse (P : Platform) (net : Delivery) (s : ManagementServer) (c : Session)
    (command : Text) : Go (Session × Except ClientErr Bytes) := do
  let c' := feed P s c (command ++ [Text.newline])
  let (res, _) ← recvMessage (net.cut (c'.out.drop c.out.length))
  match res with
  | .error err => .ok (c', .error (.readingResponse err))
  | .ok response => .ok (c', .ok response)

/-- `SendCommand` against this server. The response is returned before it is trimmed.
GOLINE: management/client.go:43-97 -/
def sendCommand (P : Platform) (net : Delivery) (s : ManagementServer) (client : ManagementClient)
    (command : Text) : Go (Session × Except ClientErr Bytes) :=
  let command := if command = [] then Text.ofString "help" else command
  if client.password ≠ [] then
    let c := feed P s (start s) (client.password ++ [Text.newline])
    let response := c.out.takeWhile (· ≠ 10)
    if response.length = c.out.length then .ok (c, .error .readingAuthResponse)
    else if Url.contains response nokAuthString then .ok (c, .error .authFailure)
    else requestResponse P net s c command
  else requestResponse P net s (start s) command

end N2nGo.Management
