namespace Scriptlet

/-!
# Consoles

Where programs print to: a buffer that keeps everything printed, or a silent console that keeps
nothing.
-/

inductive Console where
  | buffer (text : String)
  | silent

namespace Console

def empty : Console :=
  buffer ""

/-- What has been kept. -/
def output : Console → String
  | buffer text => text
  | silent => ""

def print (s : String) : Console → Console
  | buffer text => buffer (text ++ s)
  | silent => silent

def printLine (s : String) (c : Console) : Console :=
  c.print (s ++ "\n")

def clear : Console → Console
  | buffer _ => empty
  | silent => silent

end Console

end Scriptlet
