import CrateLedger.Image.Bytes

/-!
# Sources of images

An image is read from bytes in memory or from a file on disk. Both have the same bytes, but only the
second has an end that cannot be passed.
-/

namespace CrateLedger.Image

/-- An image to read. -/
structure Source where
  /-- The bytes of the image. -/
  data : Bytes
  /-- Whether the image is a file on disk. -/
  onDisk : Bool
  deriving DecidableEq, Repr

namespace Source

/-- An image in memory. -/
def inMemory (data : Bytes) : Source := ⟨data, false⟩

/-- An image that is a file. An empty file is read like an empty image in memory. -/
def file (data : Bytes) : Source := ⟨data, !data.isEmpty⟩

end Source

end CrateLedger.Image
