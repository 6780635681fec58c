import Scriptlet.Image.Layout

namespace Scriptlet

/-!
# Module images

An image is four magic bytes, a version in two bytes and a module. Bytes behind the module are
ignored.
-/

namespace Image

/-- The letters `SNIP`. -/
def magic : List UInt8 :=
  [0x53, 0x4e, 0x49, 0x50]

def version : UInt16 := 1

def headerLength : Nat := 6

end Image

/-- Why bytes are no image. -/
inductive ImageError where
  | truncated (length : Nat)
  | badMagic
  | unsupportedVersion (found : UInt16)
  | malformed (e : Image.ReadError)
  deriving DecidableEq

def ImageError.message : ImageError → String
  | truncated length => "module image is truncated (" ++ length.repr ++ " bytes)"
  | badMagic => "not a module image (bad magic)"
  | unsupportedVersion found =>
      "unsupported module image version " ++ found.toNat.repr ++ " (expected "
        ++ Image.version.toNat.repr ++ ")"
  | malformed e => "malformed module image: " ++ e.message

namespace Image

def encode (m : Code.Module) : List UInt8 :=
  magic ++ Codec.word16.put version ++ module.put m

def decode (bytes : List UInt8) : Except ImageError Code.Module :=
  if bytes.length < headerLength then .error (.truncated bytes.length)
  else if bytes.take magic.length ≠ magic then .error .badMagic
  else
    match Codec.word16.get (bytes.drop magic.length) with
    | .error e => .error (.malformed e)
    | .ok (found, body) =>
        if found ≠ version then .error (.unsupportedVersion found)
        else
          match module.get body with
          | .ok (m, _) => .ok m
          | .error e => .error (.malformed e)

end Image

end Scriptlet
