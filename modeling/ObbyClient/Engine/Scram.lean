import ObbyClient.Engine.Primitives

/-!
# SCRAM-SHA-256

Each side proves it knows a key derived from the password and a salt the server chose, over a nonce
both sides contributed to.
-/

namespace ObbyClient

/-- Why an exchange could not continue. -/
inductive ScramError where
  | malformed
  | nonceMismatch
  | tooManyIterations
  | badSalt
  | serverProofInvalid
  deriving DecidableEq

/-- An exchange in progress. -/
structure Scram where
  /-- What we sent, minus the header. -/
  clientFirstBare : Str
  /-- Our half of the nonce. -/
  clientNonce : Str
  password : Str
  /-- Set once we have computed it. -/
  serverKey : Option Bytes
  authMessage : Option Str
  deriving DecidableEq

namespace Scram

/-- How long the nonce we contribute is. -/
def nonceLen : ℕ := 24

/-- The most iterations we will run. -/
def maxIterations : ℕ := 1000000

/-- Read one `k=value` field out of a comma-separated message. -/
def field (message : Str) (key : Char) : Option Str :=
  (message.splitOn ',').findSome? fun part =>
    match part with
    | k :: '=' :: value => if k = key then some value else none
    | _ => none

/-- Strip what a nonce may not contain. -/
def sanitiseNonce (nonce : Str) : Str :=
  let cleaned := (nonce.filter Char.isAlphanum).take nonceLen
  if cleaned = [] then "0" else cleaned

/-- Escape the two characters a username may not carry literally. -/
def saslprep (username : Str) : Str :=
  username.flatMap fun c =>
    if c = '=' then ['=', '3', 'D'] else if c = ',' then ['=', '2', 'C'] else [c]

/-- Start an exchange. -/
def new (username password nonce : Str) : Scram :=
  let clientNonce := sanitiseNonce nonce
  ⟨("n=" : Str) ++ saslprep username ++ (",r=" : Str) ++ clientNonce, clientNonce, password, none,
    none⟩

/-- The first message to send. -/
def clientFirst (scram : Scram) : Bytes := Utf8.encode (("n,," : Str) ++ scram.clientFirstBare)

variable [Primitives]

/-- The exclusive or of two byte strings, as far as both go. -/
def xor (a b : Bytes) : Bytes := List.zipWith (· ^^^ ·) a b

/-- The rounds of `Hi` after the first. -/
def hiRounds (password : Bytes) : ℕ → Bytes → Bytes → Bytes
  | 0, _, result => result
  | n + 1, previous, result =>
      let previous := Primitives.hmacSha256 password previous
      hiRounds password n previous (xor result previous)

/-- The password stretched over `iterations` rounds. -/
def hi (password salt : Bytes) (iterations : ℕ) : Bytes :=
  let first := Primitives.hmacSha256 password (salt ++ [0, 0, 0, 1])
  hiRounds password (iterations - 1) first first

/-- What the server's first message must carry. -/
structure ServerFirst where
  text : Str
  nonce : Str
  salt : Bytes
  iterations : ℕ

/-- Read the server's first message, checking what it asks of us. -/
def serverFirst (scram : Scram) (bytes : Bytes) : Except ScramError ServerFirst :=
  match fromUtf8 bytes with
  | none => .error .malformed
  | some text =>
      match field text 'r', field text 's', (field text 'i').bind (parseUnsigned u32Max) with
      | some nonce, some salt, some iterations =>
          if !scram.clientNonce.isPrefixOf nonce || nonce = scram.clientNonce then
            .error .nonceMismatch
          else if iterations = 0 ∨ maxIterations < iterations then .error .tooManyIterations
          else
            match Primitives.base64Decode salt with
            | none => .error .badSalt
            | some salt => .ok ⟨text, nonce, salt, iterations⟩
      | _, _, _ => .error .malformed

/-- Answer the server's first message with our proof. -/
def clientFinal (scram : Scram) (bytes : Bytes) : Except ScramError (Scram × Bytes) :=
  match scram.serverFirst bytes with
  | .error e => .error e
  | .ok first =>
      let salted := hi (Utf8.encode scram.password) first.salt first.iterations
      let clientKey := Primitives.hmacSha256 salted (Utf8.encode "Client Key")
      let storedKey := Primitives.sha256 clientKey
      let serverKey := Primitives.hmacSha256 salted (Utf8.encode "Server Key")
      let clientFinalBare : Str := ("c=biws,r=" : Str) ++ first.nonce
      let authMessage : Str :=
        scram.clientFirstBare ++ ',' :: first.text ++ ',' :: clientFinalBare
      let signature := Primitives.hmacSha256 storedKey (Utf8.encode authMessage)
      let proof := xor clientKey signature
      .ok ({ scram with serverKey := some serverKey, authMessage := some authMessage },
        Utf8.encode (clientFinalBare ++ (",p=" : Str) ++ Primitives.base64Encode proof))

/-- Check the server's closing message. -/
def verify (scram : Scram) (bytes : Bytes) : Except ScramError Unit :=
  match (fromUtf8 bytes).bind (field · 'v'), scram.serverKey, scram.authMessage with
  | some signature, some serverKey, some authMessage =>
      let expected := Primitives.hmacSha256 serverKey (Utf8.encode authMessage)
      match Primitives.base64Decode signature with
      | none => .error .malformed
      | some given => if expected = given then .ok () else .error .serverProofInvalid
  | _, _, _ => .error .malformed

end Scram

end ObbyClient
