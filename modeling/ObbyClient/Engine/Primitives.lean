import ObbyClient.Lib.Utf8

/-!
# What the engine takes from elsewhere

Base64, the hash functions of SCRAM and the Unicode alphabet are not the engine's own code.  They
are fields of `Primitives`, about which nothing is assumed.
-/

namespace ObbyClient

/-- The functions the engine calls and does not define. -/
class Primitives where
  /-- Standard base64, padded. -/
  base64Encode : Bytes → Str
  /-- The inverse, which refuses what is not base64. -/
  base64Decode : Str → Option Bytes
  /-- HMAC-SHA-256 of a message under a key. -/
  hmacSha256 : Bytes → Bytes → Bytes
  /-- SHA-256. -/
  sha256 : Bytes → Bytes
  /-- Unicode letters and digits. -/
  isAlphanumeric : Char → Bool

/-- As the functions are on ASCII text, for runs that meet no hash and no base64. -/
@[reducible] def Primitives.ascii : Primitives where
  base64Encode := fun _ => []
  base64Decode := fun _ => none
  hmacSha256 := fun _ _ => []
  sha256 := fun _ => []
  isAlphanumeric := Char.isAlphanum

/-- A byte string as text, when it is valid UTF-8. -/
def fromUtf8 (bytes : Bytes) : Option Str :=
  let text := Utf8.decodeLossy bytes
  if Utf8.encode text = bytes then some text else none

theorem fromUtf8_encode (s : Str) : fromUtf8 (Utf8.encode s) = some s := by
  simp [fromUtf8, Utf8.decodeLossy_encode]

end ObbyClient
