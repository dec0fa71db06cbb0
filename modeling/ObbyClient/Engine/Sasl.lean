import ObbyClient.Engine.Monitor
import ObbyClient.Engine.Primitives

/-!
# SASL authentication

The credentials, the framing of a response, and how far authentication has got.
-/

namespace ObbyClient

/-- What to authenticate with. -/
inductive Credentials where
  /-- A username and password in the clear. -/
  | plain (username password : Str)
  /-- The client certificate the host already presented. -/
  | external
  /-- Prove we know the password without sending it. -/
  | scram (username password nonce : Str)
  deriving DecidableEq

namespace Credentials

/-- The mechanism name to send in the opening `AUTHENTICATE`. -/
def mechanism : Credentials → Str
  | plain _ _ => "PLAIN"
  | external => "EXTERNAL"
  | scram _ _ _ => "SCRAM-SHA-256"

/-- The response payload, before base64 and chunking. -/
def response : Credentials → Bytes
  | plain username password => 0 :: Utf8.encode username ++ 0 :: Utf8.encode password
  | external => []
  | scram _ _ _ => []

end Credentials

/-- Why authentication ended without succeeding. -/
inductive SaslFailure where
  | rejected
  | tooLong
  | aborted
  | alreadyAuthenticated
  | noSharedMechanism
  | serverNotVerified
  deriving DecidableEq

/-- How far authentication has got. -/
inductive SaslState where
  /-- Not started. -/
  | idle
  /-- The mechanism is named, waiting for the server to invite the response. -/
  | offered
  /-- The response is sent, waiting for a verdict. -/
  | responded
  /-- SCRAM: our first message is sent. -/
  | scramChallenged
  /-- SCRAM: our proof is sent, waiting for the server to prove itself in return. -/
  | scramProved
  /-- Finished, one way or the other. -/
  | settled
  deriving DecidableEq

/-- True while `CAP END` must be held back. -/
def SaslState.inFlight : SaslState → Bool
  | offered | responded | scramChallenged | scramProved => true
  | idle | settled => false

namespace Sasl

/-- The most base64 one `AUTHENTICATE` line may carry. -/
def chunk : ℕ := 400

/-- True when the server's advertised mechanism list contains this one; no list leaves it open. -/
def offers (advertised : Option Str) (mechanism : Str) : Bool :=
  match advertised with
  | none => true
  | some list => list = [] || (list.splitOn ',').any fun m => eqIgnoreAsciiCase m mechanism

variable [Primitives]

/-- Split a response into the payloads of consecutive lines; a last full one is followed by an empty
one. -/
def encodeResponse (payload : Bytes) : List Str :=
  if payload = [] then ["+"]
  else
    let encoded := Primitives.base64Encode payload
    Monitor.chunks chunk encoded.length encoded ++
      if encoded.length % chunk = 0 then [("+" : Str)] else []

/-- Decode a server challenge. -/
def decodeChallenge (payload : Str) : Option Bytes :=
  if payload = "+" then some [] else Primitives.base64Decode payload

end Sasl

end ObbyClient
