import ConfigTree.CommandLine.Run

/-! A host in memory: one directory of files, an input, and what has been written.  The output may
fill up, after which nothing more can be printed.  A run on it is a function from the world before
to the world after. -/

namespace ConfigTree.CommandLine

structure World where
  files : List (String × List UInt8)
  input : List UInt8
  output : List UInt8
  complaints : List String
  /-- How many bytes more the output takes, if there is an end to it. -/
  room : Option Nat
  deriving DecidableEq, Repr

namespace World

def noSuchFile : String := "No such file or directory (os error 2)"

def notDirectory : String := "Not a directory (os error 20)"

def isDirectory : String := "Is a directory (os error 21)"

def noSpace : String := "No space left on device (os error 28)"

def content? (w : World) (name : String) : Option (List UInt8) := w.files.lookup name

/-- Why there is nothing below `name`. -/
def obstacle (w : World) (name : String) : String :=
  if (w.content? name).isSome then notDirectory else noSuchFile

/-- The name in the directory that a path stands for. -/
def resolve (w : World) (path : String) : Except String String :=
  let parts := path.toList.splitOn '/'
  if path.toList.head? = some '/' then .error noSuchFile
  else match parts.filter fun part => part != [] && part != ['.'] with
    | [] => .error isDirectory
    | name :: rest =>
      if rest = [] ∧ parts.getLast? = some name then .ok (String.ofList name)
      else .error (w.obstacle (String.ofList name))

def decode (bytes : List UInt8) : Except String String :=
  match Text.ofBytes? bytes with
  | some text => .ok text
  | none => .error "stream did not contain valid UTF-8"

def read (w : World) (path : String) : Except String String :=
  (w.resolve path).bind fun name => match w.content? name with
    | some bytes => decode bytes
    | none => .error noSuchFile

/-- Puts a file in the place of the one with its name. -/
def put (w : World) (name : String) (bytes : List UInt8) : World :=
  { w with files := (name, bytes) :: w.files.filter (·.1 != name) }

def replace (w : World) (path : String) (bytes : List UInt8) : Except String Unit × World :=
  match w.resolve path with
  | .ok name => (.ok (), w.put name bytes)
  | .error cause => (.error cause, w)

/-- Prints what there is room for, and fails if that is not all. -/
def print (w : World) (bytes : List UInt8) : Except String Unit × World :=
  match w.room with
  | none => (.ok (), { w with output := w.output ++ bytes })
  | some room =>
    let after : World :=
      { w with output := w.output ++ bytes.take room, room := some (room - bytes.length) }
    (if bytes.length ≤ room then .ok () else .error noSpace, after)

def host : Host (StateM World) where
  isInteractive := pure false
  input := fun w => (decode w.input, w)
  file path := fun w => (w.read path, w)
  replace path bytes := fun w => w.replace path bytes
  print bytes := fun w => w.print bytes
  complain line := fun w => ((), { w with complaints := w.complaints ++ [line] })

/-- The exit code of a command line and the world after it. -/
def run (w : World) (words : List String) : UInt8 × World := (host.run words).run w

end World

end ConfigTree.CommandLine
