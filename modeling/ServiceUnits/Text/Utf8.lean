namespace ServiceUnits.Text

abbrev Bytes := List UInt8

/-- The bytes that characters are written in. -/
def encode (cs : List Char) : Bytes := cs.flatMap String.utf8EncodeChar

def utf8 (s : String) : Bytes := encode s.toList

instance : Coe (List Char) Bytes := ⟨encode⟩

instance : Coe String Bytes := ⟨utf8⟩

def isContinuation (b : UInt8) : Bool := 0x80 ≤ b && b ≤ 0xBF

/-- How a character that starts with a byte goes on: the bits that the first byte holds of it, the
range of the second byte, and how many bytes follow that one. The narrow ranges keep out the longer
spellings of short characters, the surrogates, and what is above the last character. -/
structure Lead where
  bits : Nat
  low : UInt8
  high : UInt8
  more : Nat

def lead? (b : UInt8) : Option Lead :=
  if 0xC2 ≤ b && b ≤ 0xDF then some ⟨b.toNat - 0xC0, 0x80, 0xBF, 0⟩
  else if b = 0xE0 then some ⟨0, 0xA0, 0xBF, 1⟩
  else if b = 0xED then some ⟨0xD, 0x80, 0x9F, 1⟩
  else if 0xE1 ≤ b && b ≤ 0xEF then some ⟨b.toNat - 0xE0, 0x80, 0xBF, 1⟩
  else if b = 0xF0 then some ⟨0, 0x90, 0xBF, 2⟩
  else if 0xF1 ≤ b && b ≤ 0xF3 then some ⟨b.toNat - 0xF0, 0x80, 0xBF, 2⟩
  else if b = 0xF4 then some ⟨4, 0x80, 0x8F, 2⟩
  else none

/-- The rest of a character of which `n` bytes are to come: its number if they do, and how many of
them there are. -/
def takeContinuations : Nat → Nat → Bytes → Option Nat × Nat
  | 0, value, _ => (some value, 0)
  | _ + 1, _, [] => (none, 0)
  | n + 1, value, b :: bs =>
    if isContinuation b then
      let r := takeContinuations n (value * 64 + (b.toNat - 0x80)) bs
      (r.1, r.2 + 1)
    else (none, 0)

/-- The character at the start of some bytes, none if they are not well-formed, and how many bytes
after the first one it takes. -/
def takeChar (b : UInt8) (bs : Bytes) : Option Char × Nat :=
  if b < 0x80 then (some (.ofNat b.toNat), 0)
  else match lead? b with
    | none => (none, 0)
    | some l =>
      match bs with
      | [] => (none, 0)
      | c :: cs =>
        if l.low ≤ c && c ≤ l.high then
          let r := takeContinuations l.more (l.bits * 64 + (c.toNat - 0x80)) cs
          (r.1.map .ofNat, r.2 + 1)
        else (none, 0)

/-- The characters of some bytes, none where the bytes are not well-formed, after those that the
character before has taken. -/
def decodeFrom : Nat → Bytes → List (Option Char)
  | _, [] => []
  | taken + 1, _ :: bs => decodeFrom taken bs
  | 0, b :: bs => (takeChar b bs).1 :: decodeFrom (takeChar b bs).2 bs

def decodeChars (bs : Bytes) : List (Option Char) := decodeFrom 0 bs

def replacement : Char := '\uFFFD'

/-- The text of some bytes, with a replacement character for each longest part that could have begun a
character and does not go on as one. -/
def lossy (bs : Bytes) : String := .ofList ((decodeChars bs).map (·.getD replacement))

def decodeLossy (bs : ByteArray) : String := lossy bs.toList

def decode? (bs : ByteArray) : Option String :=
  ((decodeChars bs.toList).mapM id).map .ofList

end ServiceUnits.Text
