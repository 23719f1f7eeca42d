import ServiceUnits.Toml.Number
import ServiceUnits.Toml.Token

namespace ServiceUnits.Toml

/-- Numbers and truth values are all the same here, for no setting is one. A date is the text that
it is written as. -/
inductive Value where
  | text (s : String)
  | scalar
  | date (s : String)
  | array (items : List Value)
  /-- A table between braces: closed. -/
  | inline (entries : List (String × Value))
  /-- A table that dotted keys make: open for more of them. -/
  | dotted (entries : List (String × Value))

/-- Entries in the order in which they are written. A key may occur twice. -/
abbrev Entries := List (String × Value)

/-- One entry more, under a key of some parts. All but the last part name open tables. -/
def Entries.add (entries : Entries) : List String → Value → Option Entries
  | [], _ => none
  | [key], v => some (entries ++ [(key, v)])
  | key :: rest, v =>
    match entries.findIdx? (·.1 = key) with
    | none => do
      let inner ← Entries.add [] rest v
      return entries ++ [(key, .dotted inner)]
    | some i =>
      match entries[i]? with
      | some (_, .dotted inner) => do
        let inner ← Entries.add inner rest v
        return entries.set i (key, .dotted inner)
      | _ => none

/-- Tokens that are left when some have been taken. -/
abbrev Rest (ts : List Token) := { r : List Token // r.length ≤ ts.length }

def Rest.whole (ts : List Token) : Rest ts := ⟨ts, Nat.le_refl _⟩

abbrev Shorter (ts : List Token) := { r : List Token // r.length < ts.length }

/-- One token has been taken before. -/
def Rest.after {ts : List Token} (t : Token) (r : Rest ts) : Shorter (t :: ts) :=
  ⟨r.1, Nat.lt_succ_of_le r.2⟩

def skipBlank (ts : List Token) : Rest ts :=
  match ts with
  | .blank _ :: r => ⟨r, by simp⟩
  | r => .whole r

/-- The tokens from the first that is no blank, comment or line end. -/
def skipLines (ts : List Token) : Rest ts :=
  match ts with
  | .blank _ :: r | .comment :: r | .newline :: r =>
    ⟨(skipLines r).1, Nat.le_succ_of_le (skipLines r).2⟩
  | r => .whole r

def takeKeyPart (ts : List Token) : Option (String × Shorter ts) :=
  match ts with
  | .bare w :: r => some (.ofList w, ⟨r, by simp⟩)
  | .quoted w false :: r => some (.ofList w, ⟨r, by simp⟩)
  | _ => none

/-- A key: parts with periods between them, and blanks around the periods. -/
def takeKey (ts : List Token) : Option (List String × Shorter ts) := do
  let (part, ⟨r, hr⟩) ← takeKeyPart ts
  let ⟨r', hr'⟩ := skipBlank r
  match hm : r' with
  | .period :: more =>
    let ⟨s, hs⟩ := skipBlank more
    have : more.length < r'.length := by simp [hm]
    let (parts, ⟨u, hu⟩) ← takeKey s
    return (part :: parts, ⟨u, by omega⟩)
  | _ => return ([part], ⟨r', by subst hm; omega⟩)
termination_by ts.length
decreasing_by simp_all; omega

def takeBare (ts : List Token) : Option (List Char × Rest ts) :=
  match ts with
  | .bare w :: r => some (w, ⟨r, by simp⟩)
  | _ => none

def takeIf (t : Token) (ts : List Token) : Bool × Rest ts :=
  match ts with
  | u :: r => if u = t then (true, ⟨r, by simp⟩) else (false, .whole (u :: r))
  | [] => (false, .whole [])

/-- A token and a bare word, if the token comes next. -/
def takePart (t : Token) (ts : List Token) : Option (Rest ts) :=
  match takeIf t ts with
  | (false, _) => some (.whole ts)
  | (true, ⟨r, hr⟩) => (takeBare r).map fun w => ⟨w.2.1, Nat.le_trans w.2.2 hr⟩

/-- The hour behind a date and one space. -/
def skipHour (ts : List Token) : Rest ts :=
  match ts with
  | .blank true :: .bare _ :: r => ⟨r, by simp; omega⟩
  | r => .whole r

/-- What follows the first word of a date or time. The digits are not looked at. -/
def takeDate (colonTaken : Bool) (ts : List Token) : Option (Rest ts) := do
  let ⟨a, ha⟩ := skipHour ts
  let (colon, ⟨b, hb⟩) := if colonTaken then (true, .whole a) else takeIf .colon a
  if colon then
    let (_, ⟨c, hc⟩) ← takeBare b
    let (true, ⟨d, hd⟩) := takeIf .colon c | none
    let (_, ⟨e, he⟩) ← takeBare d
    let ⟨f, hf⟩ ← takePart .period e
    let ⟨g, hg⟩ ← takePart .plus f
    let ⟨h, hh⟩ ← takePart .colon g
    return ⟨h, by omega⟩
  else return ⟨b, by omega⟩

/-- What follows the digits of a float: an exponent, its sign perhaps a token of its own. -/
def takeExponent (whole behind : List Nat) (tail : List Char) (ts : List Token) :
    Option (Rest ts) :=
  match tail with
  | [] => if isFloat whole behind false [] then some (.whole ts) else none
  | [c] =>
    if c = 'e' || c = 'E' then
      let (_, ⟨r, hr⟩) := takeIf .plus ts
      match takeBare r with
      | none => none
      | some (w, ⟨s, hs⟩) =>
        match takeInteger fraction w with
        | some (_, power, []) =>
          if isFloat whole behind false power then some ⟨s, Nat.le_trans hs hr⟩ else none
        | _ => none
    else none
  | c :: w =>
    if c = 'e' || c = 'E' then
      match takeInteger exponent w with
      | some (negative, power, []) =>
        if isFloat whole behind negative power then some (.whole ts) else none
      | _ => none
    else none

def takeNumber (w : List Char) (ts : List Token) : Option (Rest ts) :=
  let same : Rest ts := .whole ts
  match w with
  | '0' :: 'x' :: digits => if isInteger ⟨16, false, true⟩ digits then some same else none
  | '0' :: 'o' :: digits => if isInteger ⟨8, false, true⟩ digits then some same else none
  | '0' :: 'b' :: digits => if isInteger ⟨2, false, true⟩ digits then some same else none
  | _ =>
    if 'e' ∈ w || 'E' ∈ w then
      match takeInteger decimal w with
      | some (_, whole, tail) => takeExponent whole [] tail ts
      | none => none
    else match takeIf .period ts with
      | (true, ⟨r, hr⟩) =>
        match takeBare r, takeInteger decimal w with
        | some (v, ⟨s, hs⟩), some (_, whole, []) =>
          match takeInteger fraction v with
          | some (_, behind, tail) =>
            (takeExponent whole behind tail s).map fun u => ⟨u.1, by have := u.2; omega⟩
          | none => none
        | _, _ => none
      | (false, _) =>
        if w ∈ ["inf", "-inf", "nan", "-nan"].map String.toList then some same
        else if isInteger decimal w then some same
        else none

/-- Whether a word has a sign behind the letter of an exponent. -/
def hasSignedExponent (w : List Char) : Bool :=
  (w.zip (w.drop 1)).any fun p => (p.1 = 'e' || p.1 = 'E') && p.2 = '-'

/-- Whether a word with digits in it is a date: it has a `T`, or a dash that is no sign. -/
def isDate (w : List Char) : Bool :=
  'T' ∈ w || 't' ∈ w || ('-' ∈ w.drop 1 && !hasSignedExponent w)

/-- A date of a word and the tokens up to a rest, as it is written. -/
def dateOf (w : List Char) (ts : List Token) (r : Rest ts) : Value × Rest ts :=
  (.date (.ofList (w ++ (ts.take (ts.length - r.1.length)).flatMap Token.dateText)), r)

def takeWord (w : List Char) (ts : List Token) : Option (Value × Rest ts) :=
  if w = "true".toList || w = "false".toList then some (.scalar, .whole ts)
  else if w = "inf".toList || w = "nan".toList || w.head?.any (fun c => c = '-' || c.isDigit) then
    if isDate w then (takeDate false ts).map (dateOf w ts)
    else match takeIf .colon ts with
      | (true, ⟨r, hr⟩) =>
        (takeDate true r).map fun u => dateOf w ts ⟨u.1, Nat.le_trans u.2 hr⟩
      | (false, _) => (takeNumber w ts).map (Value.scalar, ·)
  else none

mutual

def takeValue (ts : List Token) : Option (Value × Shorter ts) :=
  match ts with
  | .quoted s _ :: r => some (.text (.ofList s), ⟨r, by simp⟩)
  | .bare w :: r => (takeWord w r).map fun (v, u) => (v, u.after (.bare w))
  | .plus :: .bare w :: r =>
    (takeNumber w r).map fun u => (.scalar, ⟨u.1, by have := u.2; simp; omega⟩)
  | .leftBracket :: r =>
    (takeItems [] r).map fun (vs, u) => (.array vs, ⟨u.1, Nat.lt_succ_of_lt u.2⟩)
  | .leftBrace :: r =>
    let ⟨s, hs⟩ := skipBlank r
    match hm : s with
    | .rightBrace :: u => some (.inline [], ⟨u, by simp at hs ⊢; omega⟩)
    | s' =>
      (takePairs [] s').map fun (es, u) =>
        (.inline es, ⟨u.1, by have := u.2; subst hm; simp; omega⟩)
  | _ => none
termination_by 2 * ts.length
decreasing_by all_goals grind

/-- The items of an array after those that have been taken, and its bracket. -/
def takeItems (taken : List Value) (ts : List Token) : Option (List Value × Shorter ts) :=
  let ⟨a, ha⟩ := skipLines ts
  match hm : a with
  | .rightBracket :: r => some (taken, ⟨r, by simp at ha; omega⟩)
  | _ =>
    match takeValue a with
    | none => none
    | some (v, ⟨b, hb⟩) =>
      let ⟨c, hc⟩ := skipLines b
      match hn : c with
      | .comma :: r =>
        (takeItems (taken ++ [v]) r).map fun (vs, u) =>
          (vs, ⟨u.1, by have := u.2; subst hm; simp at hc; omega⟩)
      | .rightBracket :: r => some (taken ++ [v], ⟨r, by subst hm; simp at hc; omega⟩)
      | _ => none
termination_by 2 * ts.length + 1
decreasing_by all_goals grind

/-- The pairs of a table between braces after those that have been taken, and its brace. -/
def takePairs (taken : Entries) (ts : List Token) : Option (Entries × Shorter ts) :=
  match takeKey ts with
  | none => none
  | some (key, ⟨a, ha⟩) =>
    let ⟨b, hb⟩ := skipBlank a
    match hm : b with
    | .equals :: c =>
      let ⟨d, hd⟩ := skipBlank c
      match takeValue d with
      | none => none
      | some (v, ⟨e, he⟩) =>
        match Entries.add taken key v with
        | none => none
        | some taken =>
          let ⟨f, hf⟩ := skipBlank e
          match hn : f with
          | .rightBrace :: r => some (taken, ⟨r, by simp at hb hf; omega⟩)
          | .comma :: r =>
            let ⟨g, hg⟩ := skipBlank r
            (takePairs taken g).map fun (es, u) =>
              (es, ⟨u.1, by have := u.2; simp at hb hf; omega⟩)
          | _ => none
    | _ => none
termination_by 2 * ts.length
decreasing_by all_goals grind

end

end ServiceUnits.Toml
