import Reclaim.Disk.Basic
import Reclaim.Plist.Descriptor
import Reclaim.Safety

/-!
# What a bundle says about itself

A bundle has a descriptor, a property list with its identifier and the name of its icon.  Both
become parts of paths, so only plain names are accepted.  How property lists are read is taken as an
argument, and is the usual way unless another one is given.

## Main definitions

* `Bundle.identifier?` : the identifier of a bundle.
* `Bundle.icon?` : the icon of a bundle.
-/

namespace Reclaim.Bundle

/-- The descriptor of a bundle. -/
def descriptor (bundle : Path) : Path :=
  bundle.child "Contents/Info.plist"

/-- The key of the identifier. -/
def identifierKey : String := "CFBundleIdentifier"

/-- The key of the icon's name. -/
def iconKey : String := "CFBundleIconFile"

/-- The text under a key of the descriptor, read as a property list. -/
def textAt? (bundle : Path) (key : String) (d : Disk) (read : Plist.Reader := Plist.read?) :
    Option String := do
  let data ← (d.read (descriptor bundle)).toOption
  (← read data).textAt? key

/-- The text behind a key of a descriptor that is not a property list. -/
def scrapedAt? (bundle : Path) (key : String) (d : Disk) : Option String := do
  let data ← (d.read (descriptor bundle)).toOption
  Plist.scrape? (Text.decodeLossy data) key

/-- The identifier of a bundle, if it is one plain name. -/
def identifier? (bundle : Path) (d : Disk) (read : Plist.Reader := Plist.read?) : Option String :=
  (textAt? bundle identifierKey d read <|> scrapedAt? bundle identifierKey d).filter
    Safety.isIdentifier

/-- Where the resources of a bundle are. -/
def resources (bundle : Path) : Path :=
  bundle.child "Contents/Resources"

/-- The file of an icon with the given name, which may lack its ending. -/
def iconFile (bundle : Path) (name : String) : Path :=
  let file := (resources bundle).child name
  if file.extension?.isSome then file else (resources bundle).child (name ++ ".icns")

/-- The icon of a bundle: the one that it names, or else the usual one. -/
def icon? (bundle : Path) (d : Disk) (read : Plist.Reader := Plist.read?) : Option Path :=
  let named := ((textAt? bundle iconKey d read).filter Safety.isIdentifier).map (iconFile bundle)
  (named.toList ++ [(resources bundle).child "AppIcon.icns"]).find? d.isFile

end Reclaim.Bundle
