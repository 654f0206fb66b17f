/-
# Hashes, keys and signatures

The types of `common/types.hpp` and the functions of `cryptography/`.  What those
functions call lives in two libraries outside the repository: the SHA-256 of
OpenSSL and the Schnorr signatures of secp256k1.  Both are parameters here, fields
of a `Host`, together with the byte order of the machine, since every integer in a
block is written to bytes as it lies in memory.

The one thing the results ask of secp256k1 is `Secp256k1.Correct`: a signature made
with a key pair verifies under the public key of that pair.
-/
import CoinPlatform.StdVector

open ByteOrder StdVector

namespace CoinPlatform

/-! ## Types -/

abbrev Byte := UInt8

abbrev Bytes := List Byte

abbrev Hash := List.Vector Byte 32

abbrev PublicKey := List.Vector Byte 32

abbrev PrivateKey := List.Vector Byte 32

abbrev Signature := List.Vector Byte 64

/-- Nanoseconds since the epoch. -/
abbrev TimePoint := UInt64

/-- `array.fill(0)`. -/
def zeros (n : ℕ) : List.Vector Byte n := List.Vector.replicate n 0

/-! ## The host -/

/-- The calls of secp256k1 that `schnorr_signature.cpp` makes.  A key pair is named
by the private key it was created from; `none` stands for the return value 0. -/
structure Secp256k1 where
  XonlyPubkey : Type
  keypairCreate : PrivateKey → Bool
  keypairXonlyPub : PrivateKey → Option XonlyPubkey
  xonlyPubkeySerialize : XonlyPubkey → Option PublicKey
  xonlyPubkeyParse : PublicKey → Option XonlyPubkey
  schnorrsigSign : Hash → PrivateKey → Option Signature
  schnorrsigVerify : Signature → Hash → XonlyPubkey → Bool

/-- The machine and the libraries the program runs on. -/
structure Host where
  endian : Endian
  sha256 : Bytes → Hash
  secp256k1 : Secp256k1

/-- What secp256k1 documents: a signature by a key pair verifies under the serialized
x-only public key of that pair. -/
def Secp256k1.Correct (S : Secp256k1) : Prop :=
  ∀ sk x pk h sig, S.keypairCreate sk = true → S.keypairXonlyPub sk = some x →
    S.xonlyPubkeySerialize x = some pk → S.schnorrsigSign h sk = some sig →
    ∃ y, S.xonlyPubkeyParse pk = some y ∧ S.schnorrsigVerify sig h y = true

variable (H : Host)

/-! ## `cryptography` -/

/-- `derive_public_key`. -/
def derivePublicKey (privateKey : PrivateKey) : Except Fault PublicKey :=
  if H.secp256k1.keypairCreate privateKey then
    match H.secp256k1.keypairXonlyPub privateKey with
    | none => .error (.runtimeError "Failed to extract x-only public key")
    | some x =>
      match H.secp256k1.xonlyPubkeySerialize x with
      | none => .error (.runtimeError "Failed to serialize public key")
      | some publicKey => .ok publicKey
  else .error (.runtimeError "Failed to create keypair for public key derivation")

/-- `sign_message`: the signature is over the hash of the message. -/
def signMessage (message : Bytes) (privateKey : PrivateKey) : Except Fault Signature :=
  if H.secp256k1.keypairCreate privateKey then
    match H.secp256k1.schnorrsigSign (H.sha256 message) privateKey with
    | none => .error (.runtimeError "Failed to sign message")
    | some signature => .ok signature
  else .error (.runtimeError "Failed to create keypair for signing")

/-- `verify_signature`. -/
def verifySignature (message : Bytes) (signature : Signature) (publicKey : PublicKey) : Bool :=
  match H.secp256k1.xonlyPubkeyParse publicKey with
  | none => false
  | some y => H.secp256k1.schnorrsigVerify signature (H.sha256 message) y

/-- **Signing and verifying agree** under the key derived from the signing key. -/
theorem verifySignature_signMessage (hH : H.secp256k1.Correct) {message : Bytes}
    {privateKey : PrivateKey} {publicKey : PublicKey} {signature : Signature}
    (hpk : derivePublicKey H privateKey = .ok publicKey)
    (hsig : signMessage H message privateKey = .ok signature) :
    verifySignature H message signature publicKey = true := by
  unfold derivePublicKey at hpk
  unfold signMessage at hsig
  by_cases hkey : H.secp256k1.keypairCreate privateKey = true
  · rw [if_pos hkey] at hpk hsig
    cases hx : H.secp256k1.keypairXonlyPub privateKey with
    | none => rw [hx] at hpk; simp at hpk
    | some x =>
        cases hs : H.secp256k1.schnorrsigSign (H.sha256 message) privateKey with
        | none => rw [hs] at hsig; simp at hsig
        | some sig =>
            simp only [hx] at hpk
            simp only [hs, Except.ok.injEq] at hsig
            cases hser : H.secp256k1.xonlyPubkeySerialize x with
            | none => rw [hser] at hpk; simp at hpk
            | some pk =>
                simp only [hser, Except.ok.injEq] at hpk
                subst hpk hsig
                obtain ⟨y, hy, hv⟩ := hH privateKey x pk _ sig hkey hx hser hs
                rw [verifySignature, hy]
                exact hv
  · rw [if_neg hkey] at hpk
    simp at hpk

/-- The keys of a node; every component derives the public one from the private one. -/
structure NodeKeys where
  privateKey : PrivateKey
  publicKey : PublicKey
  derived : derivePublicKey H privateKey = .ok publicKey

/-- A key pair is created from the private key of a node. -/
theorem NodeKeys.keypairCreate {H : Host} (keys : NodeKeys H) :
    H.secp256k1.keypairCreate keys.privateKey = true := by
  by_contra hkey
  have h := keys.derived
  rw [derivePublicKey, if_neg hkey] at h
  cases h

/-! ## A host to run the model on -/

/-- The hash that was signed next to the key. -/
def tagSignature (h : Hash) (pk : PublicKey) : Signature :=
  ⟨h.toList ++ pk.toList, by simp⟩

/-- Signatures that show what they are. -/
def tagSecp256k1 : Secp256k1 where
  XonlyPubkey := PublicKey
  keypairCreate := fun sk => decide (sk ≠ zeros 32)
  keypairXonlyPub := some
  xonlyPubkeySerialize := some
  xonlyPubkeyParse := fun pk => if pk = zeros 32 then none else some pk
  schnorrsigSign := fun h sk => some (tagSignature h sk)
  schnorrsigVerify := fun sig h pk => decide (sig = tagSignature h pk)

theorem tagSecp256k1_correct : tagSecp256k1.Correct := by
  intro sk x pk h sig hkey hx hser hsig
  obtain rfl : sk = x := Option.some.inj hx
  obtain rfl : sk = pk := Option.some.inj hser
  obtain rfl : tagSignature h sk = sig := Option.some.inj hsig
  refine ⟨sk, if_neg (of_decide_eq_true hkey), ?_⟩
  simp [tagSecp256k1]

/-- A little-endian host whose hash is the message, read as a number, modulo a prime
below `2 ^ 256`. -/
def tagHost : Host where
  endian := .little
  sha256 := fun data => ⟨leBytes 32 (ofLeBytes data % (2 ^ 256 - 189)), length_leBytes 32 _⟩
  secp256k1 := tagSecp256k1

/-- Keys for that host. -/
def tagKeys : NodeKeys tagHost where
  privateKey := List.Vector.replicate 32 1
  publicKey := List.Vector.replicate 32 1
  derived := by decide

/-- What that host signs with those keys. -/
theorem signMessage_tagHost (message : Bytes) :
    signMessage tagHost message tagKeys.privateKey
      = .ok (tagSignature (tagHost.sha256 message) tagKeys.publicKey) := by
  rw [signMessage, if_pos tagKeys.keypairCreate]
  rfl

end CoinPlatform
