import WireguardP2p.Python.Value

/-! `uuid.UUID(text)`: which texts it accepts and how it prints. -/

namespace Python
open Ipaddress

/-- `text.replace(pat, "")`; the number counts the characters of a match still to be dropped. -/
def removeSub (pat : Text) : ℕ → Text → Text
  | _, [] => []
  | skip + 1, _ :: t => removeSub pat skip t
  | 0, c :: t =>
    if pat.isPrefixOf (c :: t) then removeSub pat (pat.length - 1) t else c :: removeSub pat 0 t

/-- `text.strip("{}")`. -/
def stripBraces (t : Text) : Text :=
  let isBrace := fun c : Char => c == '{' || c == '}'
  ((t.dropWhile isBrace).reverse.dropWhile isBrace).reverse

/-- `uuid.UUID(text)`; `none` is a `ValueError`. -/
def parseUuid (t : Text) : Option (Fin (2 ^ 128)) :=
  let hex := (stripBraces (removeSub "uuid:".toList 0 (removeSub "urn:".toList 0 t))).filter (· ≠ '-')
  if hex.length ≠ 32 then none
  else
    match intText 16 hex with
    | some (.ofNat n) => if n < 2 ^ 128 then some (Fin.ofNat _ n) else none
    | _ => none

/-- `uuid.hex`. -/
def uuidHex (u : Fin (2 ^ 128)) : Text :=
  let digits := Numeral.text 16 u
  List.replicate (32 - digits.length) '0' ++ digits

/-- `str(uuid)`. -/
def uuidText (u : Fin (2 ^ 128)) : Text :=
  let hex := uuidHex u
  hex.take 8 ++ '-' :: (hex.drop 8).take 4 ++ '-' :: (hex.drop 12).take 4 ++
    '-' :: (hex.drop 16).take 4 ++ '-' :: hex.drop 20

/-- `str(value)` where it can be a UUID: a text, or a number of 32 digits. The text of any other value
    is none. -/
def uuidSource : Json → Text
  | .str t => t
  | .int (.ofNat n) => Numeral.text 10 n
  | _ => []

/-- `uuid.UUID(str(value)).hex`. -/
def instanceHex (value : Json) : Option Text := (parseUuid (uuidSource value)).map uuidHex

example : instanceHex (.str "{0A1b2c3d-0000-4000-8000-00000000000f}".toList) =
    some "0a1b2c3d00004000800000000000000f".toList := by decide +kernel

end Python
