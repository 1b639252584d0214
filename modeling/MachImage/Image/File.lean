import MachImage.Image.Build

/-!
# Images in files

An image is opened by a path.  What the path leads to decides whether there
is anything to read: nothing can be opened where there is no file, and a
directory can be opened but has no bytes.
-/

namespace MachImage

/-- What a path leads to. -/
inductive PathTarget where
  | nothing (path : String)
  | directory (path : String)
  | file (contents : ByteArray)

namespace PathTarget

/-- Whether a path is made of steps that lead to a directory wherever one stands: to the place
itself, to the one above, or to the root. -/
def stepsToDirectory (path : String) : Bool :=
  path ≠ "" && (path.splitOn "/").all fun step => step = "" || step = "." || step = ".."

/-- What a path leads to where there are no files. -/
def ofPath (path : String) : PathTarget :=
  if stepsToDirectory path then directory path else nothing path

end PathTarget

/-- The image a path leads to. -/
def Image.openTarget (target : PathTarget) (options : Options := {}) : Except Error Image :=
  match target with
  | .nothing path => .error (.cannotOpen path)
  | .directory path => .error (.cannotMap path)
  | .file contents => Image.parse contents options

end MachImage
