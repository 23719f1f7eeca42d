namespace ServiceUnits.Toml

/-- How the digits of a number may be written. -/
structure DigitStyle where
  radix : Nat
  signed : Bool
  leadingZeros : Bool

def digitValue? (radix : Nat) (c : Char) : Option Nat :=
  let v :=
    if c.isDigit then c.toNat - '0'.toNat
    else if 'a' ≤ c && c ≤ 'z' then c.toNat - 'a'.toNat + 10
    else if 'A' ≤ c && c ≤ 'Z' then c.toNat - 'A'.toNat + 10
    else radix
  if v < radix then some v else none

structure DigitRun where
  digits : List Nat
  zeroFirst : Bool
  underscore : Bool

/-- The digits at the start of a text and what follows them. An underscore stands between two
digits; none if a digit is missing, or one stands behind a leading zero. -/
def takeDigits (style : DigitStyle) (run : DigitRun) : List Char → Option (List Nat × List Char)
  | [] => if run.digits = [] || run.underscore then none else some (run.digits, [])
  | c :: cs =>
    match digitValue? style.radix c with
    | some d =>
      if run.zeroFirst && !style.leadingZeros then none
      else takeDigits style
        ⟨run.digits ++ [d], run.zeroFirst || (run.digits = [] && c = '0'), false⟩ cs
    | none =>
      if c = '_' && run.digits = [] then none
      else if c = '_' && !run.underscore then takeDigits style { run with underscore := true } cs
      else if run.digits = [] || run.underscore then none
      else some (run.digits, c :: cs)

/-- A sign, if there may be one and there is one, then digits: whether the sign is a minus, the
digits, and what follows. -/
def takeInteger (style : DigitStyle) (s : List Char) : Option (Bool × List Nat × List Char) :=
  let start : DigitRun := ⟨[], false, false⟩
  match s with
  | c :: cs =>
    if style.signed && (c = '+' || c = '-') then
      (takeDigits style start cs).map fun r => (c = '-', r.1, r.2)
    else (takeDigits style start s).map fun r => (false, r.1, r.2)
  | [] => none

def valueOf (radix : Nat) (digits : List Nat) : Nat := digits.foldl (fun n d => n * radix + d) 0

def isInteger (style : DigitStyle) (s : List Char) : Bool :=
  match takeInteger style s with
  | some (negative, digits, []) =>
    valueOf style.radix digits ≤ (if negative then Nat.pow 2 63 else Nat.pow 2 63 - 1)
  | _ => false

def decimal : DigitStyle := ⟨10, true, false⟩

/-- Digits behind the point. -/
def fraction : DigitStyle := ⟨10, false, true⟩

/-- Digits of an exponent whose sign, if it has one, stands with them. -/
def exponent : DigitStyle := ⟨10, true, true⟩

/-- Whether the number `digits · 10 ^ e` is below the largest that a float of sixty-four bits is
rounded to. -/
def isFinite (digits : List Nat) (e : Int) : Bool :=
  let m := valueOf 10 digits
  let magnitude : Int := (digits.dropWhile (· = 0)).length + e
  if m = 0 || magnitude < 300 then true
  else if 320 < magnitude then false
  else if 0 ≤ e then m * Nat.pow 10 e.toNat < Nat.pow 2 1024 - Nat.pow 2 970
  else m < (Nat.pow 2 1024 - Nat.pow 2 970) * Nat.pow 10 (-e).toNat

/-- Whether whole digits, digits behind the point and an exponent make a finite number. -/
def isFloat (whole behind : List Nat) (negative : Bool) (power : List Nat) : Bool :=
  let e : Int := valueOf 10 power
  isFinite (whole ++ behind) ((if negative then -e else e) - behind.length)

end ServiceUnits.Toml
