import Reticulum.Crypto

/-! The ratchets of a destination (rns/destination.go) and decryption with them (rns/identity.go). They are kept in
memory and in a file, which is written after every rotation, and read again when the destination is started and when a
ciphertext cannot be decrypted. -/

namespace Reticulum

structure RatchetCrypto (κ : Type) where
  publicBytes : κ → Bytes
  /-- The shared key of a private key and a public one. -/
  exchange : κ → Bytes → Option Bytes
  /-- Decryption by the token of a derived key. -/
  tokenDecrypt : Bytes → Bytes → Option Bytes
  /-- `Encrypt` of an identity for the public key of a ratchet, with the randomness that it draws. -/
  encrypt : Bytes → Bytes → Bytes → Bytes

structure RatchetConfig (κ : Type) where
  crypto : RatchetCrypto κ
  identityHash : Bytes
  prv : Option κ := none
  enforceRatchets : Bool := false
  retainedRatchets : Nat := 512
  /-- In seconds. -/
  ratchetInterval : Int := 1800

/-- The ratchets in memory, once enabled, and in the file, with those ever generated and those announced. -/
structure RatchetStore (κ : Type) where
  ratchets : Option (List κ) := none
  ratchetsPath : Bool := false
  file : Option (List κ) := none
  latestRatchetTime : Option Int := none
  generated : List κ := []
  announced : List κ := []
deriving DecidableEq, Repr

namespace RatchetConfig

variable {κ : Type} (conf : RatchetConfig κ)

def trial (ciphertext : Bytes) (key : κ) : Option Bytes :=
  (conf.crypto.exchange key (ciphertext.take 32)).bind fun sharedKey =>
    (hkdf 64 sharedKey conf.identityHash []).bind fun derivedKey =>
      conf.crypto.tokenDecrypt derivedKey (ciphertext.drop 32)

/-- `Decrypt` of the identity. -/
def identityDecrypt (ciphertext : Bytes) (ratchets : List κ) : Option Bytes :=
  if ciphertext.length < 32 then none
  else
    match ratchets.findSome? (conf.trial ciphertext) with
    | some plaintext => some plaintext
    | none => if conf.enforceRatchets then none else conf.prv.bind (conf.trial ciphertext)

end RatchetConfig

namespace RatchetStore

variable {κ : Type} (conf : RatchetConfig κ) (d : RatchetStore κ)

def inMemory : List κ := d.ratchets.getD []

/-- `persistRatchets`, and whether it succeeds. The new file replaces the old one as a whole. -/
def persistRatchets (written : Bool) : RatchetStore κ × Bool :=
  if d.ratchetsPath = false then (d, true)
  else if written then ({ d with file := some d.inMemory }, true)
  else (d, false)

def reloadRatchets (written : Bool) : RatchetStore κ :=
  match d.file with
  | none => (persistRatchets { d with ratchets := some [] } written).1
  | some ratchets => { d with ratchets := some ratchets }

def enableRatchets (written : Bool) : RatchetStore κ :=
  reloadRatchets { d with ratchetsPath := true, latestRatchetTime := none } written

/-- What a rotation finds: the time, the key that is generated and whether the file can be written. -/
structure Rotation (κ : Type) where
  now : Int
  newRatchet : Option κ
  written : Bool
deriving DecidableEq, Repr

def prepend (now : Int) (key : κ) : RatchetStore κ :=
  { d with
    ratchets := some ((key :: d.inMemory).take conf.retainedRatchets)
    latestRatchetTime := some now
    generated := key :: d.generated }

/-- `RotateRatchets`, and whether it succeeds. -/
def rotateRatchets (r : Rotation κ) : RatchetStore κ × Bool :=
  if d.ratchets.isNone then (d, false)
  else if d.latestRatchetTime.any fun latest => r.now - latest < conf.ratchetInterval then (d, true)
  else
    match r.newRatchet with
    | none => (d, false)
    | some key => (d.prepend conf r.now key).persistRatchets r.written

/-- `buildAnnouncePacket` up to the ratchet; no packet if the rotation or the signature fails. -/
def buildAnnouncePacket (r : Rotation κ) (signed : Bool) : RatchetStore κ :=
  if d.ratchets.isNone then d
  else
    let (d, rotated) := d.rotateRatchets conf r
    if rotated && signed then { d with announced := d.inMemory.head?.toList ++ d.announced } else d

/-- `Decrypt` of the destination. -/
def decrypt (ciphertext : Bytes) (written : Bool) : RatchetStore κ × Option Bytes :=
  if d.inMemory = [] then (d, conf.identityDecrypt ciphertext [])
  else
    match conf.identityDecrypt ciphertext d.inMemory with
    | some plaintext => (d, some plaintext)
    | none =>
      if d.ratchetsPath then
        let d := d.reloadRatchets written
        (d, conf.identityDecrypt ciphertext d.inMemory)
      else (d, none)

inductive Event (κ : Type) where
  | rotate (r : Rotation κ)
  | announce (r : Rotation κ) (signed : Bool)
  | decrypt (ciphertext : Bytes) (written : Bool)
  | enable (written : Bool)
deriving DecidableEq, Repr

def fresh {κ : Type} [DecidableEq κ] (conf : RatchetConfig κ) (d : RatchetStore κ) (r : Rotation κ) : Bool :=
  r.newRatchet.all fun key => key ∉ d.generated && conf.prv ≠ some key

def step {κ : Type} [DecidableEq κ] (conf : RatchetConfig κ) (d : RatchetStore κ) : Event κ → Option (RatchetStore κ)
  | .rotate r => if fresh conf d r then some (d.rotateRatchets conf r).1 else none
  | .announce r signed => if fresh conf d r then some (d.buildAnnouncePacket conf r signed) else none
  | .decrypt ciphertext written => some (d.decrypt conf ciphertext written).1
  | .enable written => some (d.enableRatchets written)

end RatchetStore
end Reticulum
