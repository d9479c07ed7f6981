import RunmanAgent.Model

/-!
# Image templates (`src/runtime/image.rs`)

`<data>/images/<id>/<serial>/{rootfs,meta.json}`, with a `current` link to the serial
new instances use, and `settings.json` with the owner's choices. A path is the list of
its components, so `Path::starts_with` is the prefix order.
-/

namespace RunmanAgent

/-- `PathBuf`, as its components. -/
abbrev Path := List String

structure Image where
  id : String
  name : String
  serial : String
  stopSignal : String
  custom : Bool := false
  base : String := ""
  script : String := ""
  rootfs : Path := []
  deriving DecidableEq

/-- Image ids end up in paths and in the platform's `os_image`. -/
def validId (id : String) : Bool :=
  !id.isEmpty && decide (id.utf8ByteSize ≤ 40) &&
    id.toList.all (fun c => c.isLower || c.isDigit || c == '-') && id.toList.head? != some '-'

/-- `<image>/<serial>/`: `meta.json`, or the error of reading or parsing it. -/
structure SerialDir where
  metaJson : Except String Image

/-- `<data>/images/<id>/`. -/
structure ImageDir where
  /-- Target of the `current` link. -/
  current : Option String := none
  serials : AList (fun _ : String => SerialDir) := ∅

/-- `<data>/images/`. -/
structure ImageStore where
  dir : Path := []
  images : AList (fun _ : String => ImageDir) := ∅
  /-- `settings.json`; `none` when it is missing or does not parse. -/
  settingsJson : Option ImageSettings := none

namespace ImageStore

/-- On a fresh installation Alpine is offered and Debian can be enabled from the panel. -/
def defaultSettings : ImageSettings where
  order := ["alpine", "debian"]
  disabled := ["debian"]

def settings (s : ImageStore) : ImageSettings := s.settingsJson.getD defaultSettings

def isEnabled (s : ImageStore) (id : String) : Bool :=
  !(s.settings.disabled.any fun d => d == id)

/-- The serial directory `current` points to, if the link resolves. -/
def currentSerial (s : ImageStore) (id : String) : Option (String × SerialDir) :=
  (s.images.lookup id).bind fun d =>
    d.current.bind fun serial => (d.serials.lookup serial).map fun sd => (serial, sd)

def get (s : ImageStore) (id : String) : Except Err Image :=
  if !validId id then .error (.invalidImageId id)
  else
    match s.currentSerial id with
    | none => .error (.imageNotAvailable id)
    | some (serial, sd) =>
      match sd.metaJson with
      | .error text => .error (.imageMeta text)
      | .ok img => .ok { img with rootfs := s.dir ++ [id, serial, "rootfs"] }

end ImageStore

end RunmanAgent
