

/-!
# File metadata

The hash `labios:filemeta:<path>` of `labios/catalog_manager.cpp`: whether the file
exists and how long it is. `mtime` is left out.
-/

namespace Labios

/-- The fields of the hash; a field that was never set is absent. -/
structure FileMeta where
  isThere : Option Bool := none
  size : Option UInt64 := none
  deriving DecidableEq, Repr

/-- What `get_file_info` returns. -/
structure FileInfo where
  isThere : Bool
  size : UInt64 := 0
  deriving DecidableEq, Repr

def oCreat : UInt32 := 0x40

def oTrunc : UInt32 := 0x200

namespace FileMeta

def trackOpen (m : FileMeta) (flags : UInt32) : FileMeta :=
  let m := if flags &&& oCreat != 0 then { isThere := some true, size := some (m.size.getD 0) } else m
  if flags &&& oTrunc != 0 then { isThere := some true, size := some 0 } else m

def trackWrite (m : FileMeta) (offset size : UInt64) : FileMeta :=
  let stop := offset + size
  { isThere := some true, size := if m.size.getD 0 < stop then some stop else m.size }

def trackUnlink (_ : FileMeta) : FileMeta := { isThere := some false, size := some 0 }

def trackTruncate (_ : FileMeta) (newSize : UInt64) : FileMeta :=
  { isThere := some true, size := some newSize }

def getFileInfo (m : FileMeta) : Option FileInfo :=
  m.isThere.map fun isThere => { isThere, size := m.size.getD 0 }

end FileMeta

end Labios
