import ServiceUnits.Path
import ServiceUnits.Text.Utf8

namespace ServiceUnits

open Text

/-- A path as the system takes it. Its bytes need not be the ones of a text. -/
structure RawPath where
  bytes : Bytes
deriving DecidableEq

namespace RawPath

def ofText (s : String) : RawPath := ⟨s⟩

/-- The text that a path is shown as. Bytes that are no text are lost in it. -/
def text (p : RawPath) : String := lossy p.bytes

def shown (p : RawPath) : Path := ⟨p.text⟩

def slash : UInt8 := 0x2F

def isSlash (b : UInt8) : Bool := b = slash

def dot : UInt8 := 0x2E

/-- The step to the directory above. -/
def up : Bytes := [dot, dot]

/-- A step that leads nowhere: empty, or the dot. -/
def isIdle (step : Bytes) : Bool := step = [] || step = [dot]

@[simp]
theorem isIdle_up : isIdle up = false := by decide

/-- What is between the slashes. -/
def piecesOf (bs : Bytes) : List Bytes := pieces isSlash bs

/-- The pieces up to the last one that names a step. -/
def dropIdleEnd (ps : List Bytes) : List Bytes := (ps.reverse.dropWhile isIdle).reverse

/-- The pieces before the last step, without idle ones at the end; none if there is no step. -/
def init? (ps : List Bytes) : Option (List Bytes) :=
  match dropIdleEnd ps with
  | [] => none
  | qs => some (dropIdleEnd qs.dropLast)

/-- The path without its last component. What stays of it is kept as it is. -/
def parent? (p : RawPath) : Option RawPath :=
  match piecesOf p.bytes with
  | [] => none
  | first :: rest =>
    if first = [] then
      if p.bytes = [] then none else (init? rest).map fun ps => ⟨slash :: Text.join slash ps⟩
    else if first = [dot] then
      match init? rest with
      | none => some ⟨[]⟩
      | some ps => some ⟨Text.join slash ([dot] :: ps)⟩
    else (init? (first :: rest)).map fun ps => ⟨Text.join slash ps⟩

end RawPath

instance : Coe String RawPath := ⟨RawPath.ofText⟩

namespace Path

def raw (p : Path) : RawPath := .ofText p.text

instance : Coe Path RawPath := ⟨raw⟩

/-- The text of the path without its last component. -/
def parent? (p : Path) : Option Path := p.raw.parent?.map RawPath.shown

end Path
end ServiceUnits
