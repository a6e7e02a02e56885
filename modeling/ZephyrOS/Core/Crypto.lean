import ZephyrOS.Core.Errors

/-!
# The cryptographic primitives

What the update code and the recovery loader use of `core/crypto.c`, as parameters: a hash of
32 bytes, and a check of a signature over a message. The keys are those of `update_trust.h`.
-/

namespace ZephyrOS

/-- A SHA-256 hash. -/
abbrev Digest := Vector UInt8 32

structure Crypto where
  sha256 : List UInt8 → Digest
  /-- Signature, public key, message. -/
  ed25519 : List UInt8 → List UInt8 → List UInt8 → Bool

namespace Trust

/-- `UPDATE_TRUST_PUBLIC_KEY`. -/
def publicKey : List UInt8 :=
  [0x3D, 0xD0, 0x69, 0x7E, 0x7A, 0x16, 0x72, 0x18, 0x30, 0x0D, 0xFE, 0x96, 0xF1, 0x00, 0xD5, 0x62,
   0xCA, 0xA7, 0x60, 0xB8, 0x04, 0x81, 0x8D, 0x2D, 0xAB, 0xF0, 0x9C, 0x10, 0xB1, 0xDA, 0xEE, 0xCD]

/-- `UPDATE_TRUST_KEY_ID`. -/
def keyId : List UInt8 :=
  [0xDF, 0xEC, 0xFA, 0x35, 0x48, 0x5F, 0xDE, 0x8A, 0xD6, 0x17, 0x07, 0x94, 0x7E, 0x5A, 0xE8, 0x5B]

/-- `UPDATE_TRUST_REVOKED_KEY_IDS`. -/
def revokedKeyIds : List (List UInt8) := [List.replicate 16 0xA5]

def validUntilEpoch : Nat := 4294967294

/-- `update_trust_key_allowed`. -/
def keyAllowed (key : List UInt8) (targetEpoch : Nat) : Bool :=
  targetEpoch ≤ validUntilEpoch && key == keyId && !revokedKeyIds.contains key

end Trust

end ZephyrOS
