import Reticulum.Crypto

/-! Interface access codes (rns/interfaces/base.go). An interface of a network that has a name or a passphrase signs
each frame, puts the end of the signature into it and masks the rest. -/

namespace Reticulum

def ifacMaxSize : Nat := 64

/-- What an interface with authentication holds: the size of the code, the key of the mask and the signer. -/
structure Ifac where
  size : Nat
  key : Bytes
  sign : Bytes → Bytes
  pos : 0 < size
  le : size ≤ ifacMaxSize
  length_key : key.length = 64
  length_sign : ∀ message, (sign message).length = 64

def Ifac.unmask (ifac : Ifac) (mask data : Bytes) : Bytes :=
  let unmasked := data.mapIdx fun i b => if i ≤ 1 ∨ ifac.size + 1 < i then b ^^^ mask.getD i 0 else b
  (unmasked.getD 0 0 &&& 0x7f) :: unmasked.getD 1 0 :: unmasked.drop (2 + ifac.size)

/-- `ApplyIFACInbound`: the frame without its code; none where it is rejected. -/
def applyIfacInbound (ifac : Option Ifac) (data : Bytes) : Option Bytes :=
  if data.length ≤ 2 then none
  else
    let flagged := data.getD 0 0 &&& 0x80 = 0x80
    match ifac with
    | none => if flagged then none else some data
    | some ifac =>
      if ¬flagged then none
      else if data.length ≤ 2 + ifac.size then none
      else
        let code := (data.drop 2).take ifac.size
        match hkdf data.length code ifac.key [] with
        | none => none
        | some mask =>
          let newRaw := ifac.unmask mask data
          let sig := ifac.sign newRaw
          if sig.length < ifac.size then none
          else if code ≠ sig.drop (sig.length - ifac.size) then none
          else some newRaw

/-- `ApplyIFACOutbound`; none for an error. -/
def applyIfacOutbound (ifac : Option Ifac) (data : Bytes) : Option Bytes :=
  match ifac with
  | none => some data
  | some ifac =>
    if data.length ≤ 2 then some data
    else
      let sig := ifac.sign data
      if sig.length < ifac.size then none
      else
        let code := sig.drop (sig.length - ifac.size)
        match hkdf (data.length + ifac.size) code ifac.key [] with
        | none => none
        | some mask =>
          let newRaw := (data.getD 0 0 ||| 0x80) :: data.getD 1 0 :: (code ++ data.drop 2)
          some (newRaw.mapIdx fun i b =>
            if i = 0 then (b ^^^ mask.getD i 0) ||| 0x80
            else if i = 1 ∨ ifac.size + 1 < i then b ^^^ mask.getD i 0
            else b)

end Reticulum
