import ServiceUnits.Error
import ServiceUnits.Path

namespace ServiceUnits

/-- What units are read from. -/
structure FileSystem where
  /-- The path itself and every place that its links lead through, in that order. -/
  chain : Path → Except Error (List Path)
  read : Path → Except Error ByteArray
  /-- The names in a directory, in no order that means anything. -/
  list : Path → Except Error (List String)

end ServiceUnits
