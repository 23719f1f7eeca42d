import ServiceUnits.Error
import ServiceUnits.Path.Raw
import ServiceUnits.Path.Simplify

namespace ServiceUnits

open Text

/-- What the system says of a path whose last link is not followed. -/
inductive Probe where
  /-- The path cannot be looked at, for whatever reason. -/
  | refused (e : SystemError)
  | plain
  /-- A link, and the answer to reading it. -/
  | link (target : Except SystemError Bytes)

namespace Probe

def isLink : Probe → Bool
  | link _ => true
  | _ => false

/-- How many links are followed at most. -/
def maxFollows : Nat := 32

/-- The text that a relative target makes with the directory of its link. The text of the directory
stands before it, so a path that is no text has become another one here. -/
def joinedText (dir : RawPath) (target : Bytes) : String :=
  (if dir.text = "" then "." else dir.text) ++ "/" ++ lossy target

/-- Where the target of a link leads to: an absolute one as it is written, a relative one from the
directory of the link, simplified as text. -/
def targetOf (p : RawPath) (target : Bytes) : Except LinkError RawPath :=
  if target.head? = some RawPath.slash then .ok ⟨target⟩
  else match p.parent? with
    | none => .error (.notExisting "couldn't determine parent directory")
    | some dir =>
      match Path.simplify? (joinedText dir target) with
      | some text => .ok (.ofText text)
      | none => .error (.invalid ("invalid file path: " ++ joinedText dir target))

/-- Where a link leads to, by the answer to reading it. -/
def next (p : RawPath) : Except SystemError Bytes → Except LinkError RawPath
  | .ok target => targetOf p target
  | .error e => .error (.system e)

/-- The path and the places that its links lead to, with `n` links still to be followed. -/
def chaseFrom (probe : RawPath → Probe) : Nat → RawPath → Except LinkError (List RawPath)
  | n, p =>
    match probe p with
    | refused _ => .error (.notExisting p.text)
    | plain => .ok [p]
    | link target =>
      match n with
      | 0 => .error (.errno .linkLoop)
      | n + 1 =>
        match next p target with
        | .error e => .error e
        | .ok q => (chaseFrom probe n q).map (p :: ·)

/-- The path and the places that its links lead to; the last is not a link. -/
def chase (probe : RawPath → Probe) (p : RawPath) : Except LinkError (List RawPath) :=
  chaseFrom probe maxFollows p

/-- The chain of a path that is a text, with each place as it is shown. -/
def follow (probe : RawPath → Probe) (p : Path) : Except LinkError (List Path) :=
  (chase probe p).map (·.map RawPath.shown)

end Probe
end ServiceUnits
